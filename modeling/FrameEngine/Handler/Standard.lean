import FrameEngine.Handler

/-!
# FrameEngine.Handler.Standard

Handlers that write to the journal and do nothing else: `quiet`, which lets messages pass, and
`logging`, which is used where no other handler is given.
-/

namespace FrameEngine
namespace Handler

def errorLine (id : List (String × String)) (e : EngineError) : LogLine :=
  ⟨.warn, "Connection error", id ++ [("error", e.message)]⟩

/-- What is done about an error of the server where nothing else is. -/
def plainNotice (e : EngineError) : Notice := ⟨[errorLine [] e], none⟩

def plain (c : Caller) : Callback → Reaction
  | .connect => .log ⟨.debug, "Connection opened", [c.idField, ("peer", peerText c.peer)]⟩
  | .message _ => .done
  | .close => .log ⟨.debug, "Connection closed", [c.idField]⟩
  | .error e => .log (errorLine [c.idField] e)

def quiet : Handler := ⟨plain, plainNotice⟩

def logging : Handler where
  react c
    | .connect => .log ⟨.info, "Connected", [c.idField, ("peer", peerText c.peer)]⟩
    | .message m =>
      .log ⟨.info, "Message received",
        [c.idField, ("message_type", toString m.type), ("sequence", toString m.sequence),
          ("len", toString m.payloadLength)]⟩
    | .close => .log ⟨.info, "Disconnected", [c.idField]⟩
    | .error e => plain c (.error e)
  notice := plainNotice

end Handler
end FrameEngine
