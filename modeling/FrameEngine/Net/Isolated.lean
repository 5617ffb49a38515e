import FrameEngine.Client.Step
import FrameEngine.Net.SocketAddress
import FrameEngine.Server.Step

/-!
# FrameEngine.Net.Isolated

A host without a network: it can listen on its own address and nobody will come; whatever it dials
is out of reach. Servers and clients on it run until they wait for what never happens.
-/

namespace FrameEngine
namespace Isolated

/-- What an address of this host begins with. -/
def ownHost : List Char := "127.0.0.1:".toList

/-- A socket to listen on: the host has one on its own address, and lets nobody have another. -/
def bind (address : String) : Except IoFailure String :=
  if ownHost.isPrefixOf address.toList then .ok address
  else .error ⟨.permissionDenied, some "Permission denied (os error 13)"⟩

/-- Whether a text ends in a colon and a port. -/
def hasPort (behind : List Char) : Bool :=
  match SocketAddress.port? (':' :: behind) with
  | some (_, []) => true
  | _ => false

/-- An attempt to dial. A text that is no address fails for that reason; an address is out of
reach. -/
def dial (address : String) : Except IoFailure Client.Socket :=
  let text := address.toList
  if !text.contains ':' then .error ⟨.invalidInput, some "invalid socket address"⟩
  else if !hasPort (text.reverse.takeWhile (· ≠ ':')).reverse then
    .error ⟨.invalidInput, some "invalid port value"⟩
  else .error ⟨.networkUnreachable, some "Network is unreachable (os error 101)"⟩

/-! ## Servers -/

/-- What the tasks of a server and its callers can do without a socket or a clock. -/
def serverTurns (sv : Server) : List Server.Label :=
  [.acceptCancelled, .acceptGo] ++ sv.closing.map .closeGo ++
    (List.range sv.stops.length).map .stopGo ++ sv.links.flatMap fun l =>
      [.begin l.id, .startRequested l.id, .finish l.id] ++
        [Task.reader, Task.writer, Task.idler, Task.runner].flatMap fun t =>
          [.wake l.id t .cancelled, .wake l.id t .go]

/-- The first of some labels that can be is done. -/
def firstStep (s : ServerSetup) (sv : Server) : List Server.Label → Option Server
  | [] => none
  | l :: rest =>
    match sv.step s l with
    | some sv => some sv
    | none => firstStep s sv rest

/-- Steps until nothing can be done without a socket or a clock, or so many. -/
def settleIn (s : ServerSetup) : Nat → Server → Server
  | 0, sv => sv
  | n + 1, sv =>
    match firstStep s sv (serverTurns sv) with
    | some sv => settleIn s n sv
    | none => sv

/-- Enough steps for a server that nobody comes to. -/
def patience : Nat := 10000

/-- A server runs until it waits for what never happens. -/
def settle (s : ServerSetup) (sv : Server) : Server := settleIn s patience sv

def start (s : ServerSetup) (sv : Server) : Except EngineError Server :=
  match sv.startOn s (bind s.settings.address) with
  | .ok sv => .ok (settle s sv)
  | .error e => .error e

/-- A server stopped, by so many callers at once. -/
def stop (s : ServerSetup) (callers : Nat) (sv : Server) : Server :=
  settle s (callers.repeat Server.stop sv)

/-! ## Clients -/

/-- A caller that opens a connection goes on until it has an answer, over so many attempts. -/
def openIn (s : ClientSetup) (caller : Nat) : Nat → Client → Except EngineError Unit × Client
  | 0, cl => (.error .connectTimeout, cl)
  | n + 1, cl =>
    match cl.opens[caller]? with
    | some ⟨_, .dialing _ _⟩ =>
      match cl.dialed s caller (dial s.settings.address) with
      | some cl => openIn s caller n cl
      | none => (.error .connectTimeout, cl)
    | some ⟨_, .pausing resume _⟩ =>
      let cl := { cl with now := max cl.now resume }
      match cl.openTimer s caller with
      | some cl => openIn s caller n cl
      | none => (.error .connectTimeout, cl)
    | some ⟨_, .answered r⟩ => (r, cl)
    | none => (.error .connectTimeout, cl)

/-- A caller opens a connection. Each attempt that is tried again takes two steps. -/
def connect (s : ClientSetup) (cl : Client) (loops : LoopSet) : Except EngineError Unit × Client :=
  openIn s cl.opens.length (2 * s.settings.maxRetries + 2) (cl.beginOpen s loops)

end Isolated
end FrameEngine
