import FrameEngine.Proofs.Net.Link
import FrameEngine.Server.Step
import Mathlib.Logic.Relation

/-!
# FrameEngine.Proofs.Server.Books

The books of a server: what decides who is let in and when a caller that stops it comes back. An
`Act` is one entry in them. `acts_of_step` takes the steps of a server apart once, each into the
acts that it consists of; what is true of the books as a whole is then a matter of the acts alone.

The acts rely on the books being `Orderly`: connections stand in them in the order of their numbers,
all of them below the next one. So a number names one connection.
-/

namespace FrameEngine

open Connection

namespace Server

variable {s : ServerSetup} {sv sv' : Server}

/-- Whether someone attends to those who come, and has a permit for the next of them. -/
inductive Door where
  | shut
  | attended (permit : Bool)
  deriving DecidableEq

namespace Door

def hasPermit : Door → Bool
  | shut => false
  | attended permit => permit

end Door

def Acceptor.door : Acceptor → Door
  | absent | finished => .shut
  | fresh | refusing _ _ => .attended false
  | waiting permit _ | retrying _ permit _ => .attended permit

theorem Acceptor.hasPermit_door (a : Acceptor) : a.door.hasPermit = a.hasPermit := by
  cases a <;> rfl

theorem Acceptor.door_eq_shut {a : Acceptor} : a.door = .shut ↔ a.isOver = true := by
  cases a <;> simp [door, isOver]

/-! ## What has been seen -/

def Event.admitted? : Event → Option Nat
  | .admitted id => some id
  | _ => none

def Event.isRefusal : Event → Bool
  | .refused _ => true
  | _ => false

/-- The handler was told that there are too many connections. -/
def Event.isNotice : Event → Bool
  | .noticed .tooManyConnections => true
  | _ => false

/-- The numbers of those who were let in, the latest first. -/
def admissions (sv : Server) : List Nat := sv.history.filterMap Event.admitted?

def refusals (sv : Server) : Nat := sv.history.countP Event.isRefusal

def notices (sv : Server) : Nat := sv.history.countP Event.isNotice

/-! ## The books -/

structure Books where
  nextId : Nat
  door : Door
  running : Bool
  stopped : Bool
  cancelled : Bool
  permits : Nat
  links : List Link
  registered : List Nat
  closing : List Nat
  stops : List StopCall
  /-- The counters of those who are registered and of those who were refused. -/
  active : UInt64
  refused : UInt64
  admissions : List Nat
  refusals : Nat
  notices : Nat

def books (sv : Server) : Books where
  nextId := sv.nextId
  door := sv.acceptor.door
  running := sv.running
  stopped := sv.stopped
  cancelled := sv.cancelled
  permits := sv.permits
  links := sv.links
  registered := sv.registered
  closing := sv.closing
  stops := sv.stops
  active := sv.metrics.connectionsActive
  refused := sv.metrics.connectionsRefused
  admissions := sv.admissions
  refusals := sv.refusals
  notices := sv.notices

namespace Books

/-- The task of a connection has ended. -/
def endLink (l : Link) (k : Link) : Link := if k.id = l.id then { l with ended := true } else k

/-- The books with one more connection, under the next number. -/
def enter (b : Books) (l : Link) : Books :=
  { b with
    nextId := b.nextId + 1
    links := b.links ++ [l]
    registered := b.nextId :: b.registered.filter (· ≠ b.nextId)
    active := b.active + 1
    admissions := b.nextId :: b.admissions }

inductive Act (b : Books) : Books → Prop where
  /-- Connections and their tasks go on. -/
  | serves {f : Link → Link} (h : ∀ l ∈ b.links, l.Moves (f l)) :
      Act b { b with links := b.links.map f }
  /-- Someone else takes a number. -/
  | draws : Act b { b with nextId := b.nextId + 1 }
  | opens (fresh : b.stopped = false ∧ b.running = false) :
      Act b { b with running := true, door := .attended false }
  | takes {n : Nat} (empty : b.door = .attended false) (free : b.permits = n + 1) :
      Act b { b with permits := n, door := .attended true }
  | yields (held : b.door = .attended true) :
      Act b { b with permits := b.permits + 1, door := .attended false }
  | shuts {permit : Bool} (attended : b.door = .attended permit) :
      Act b { b with permits := b.permits + permit.toNat, door := .shut }
  /-- A connection is let in; it is closed at once if the server is told to stop. -/
  | admits {l : Link} (held : b.door = .attended true) (next : l.id = b.nextId)
      (tended : l.Tended) (lives : l.ended = false)
      (late : b.cancelled = true → l.isClosed = true) :
      Act b { b.enter l with door := .attended false }
  | refuses (empty : b.door = .attended false) (full : b.permits = 0) :
      Act b { b with
        refused := b.refused + 1, refusals := b.refusals + 1, notices := b.notices + 1 }
  | ends {l : Link} (mem : l ∈ b.links) (able : l.canEnd = true) :
      Act b { b with
        links := b.links.map (endLink l)
        registered := b.registered.filter (· ≠ l.id)
        permits := b.permits + 1
        active := if b.active = 0 then b.active else b.active - 1 }
  /-- A caller stops the server and waits for the accept loop. -/
  | stops (first : Bool) :
      Act b { b with stopped := true, cancelled := true, stops := b.stops ++ [.joining first] }
  /-- A caller stops the server and waits for all tasks. -/
  | drains (first : Bool) :
      Act b { b with
        stopped := true
        cancelled := true
        closing := b.closing ++ b.registered
        stops := b.stops ++ [.draining first] }
  | joins {caller : Nat} {first : Bool} (waits : b.stops[caller]? = some (.joining first))
      (shut : b.door = .shut) :
      Act b { b with
        closing := b.closing ++ b.registered, stops := b.stops.set caller (.draining first) }
  | returns {caller : Nat} {first : Bool} (waits : b.stops[caller]? = some (.draining first))
      (shut : b.door = .shut) (swept : b.closing = []) (ended : ∀ l ∈ b.links, l.ended = true) :
      Act b { b with running := false, stops := b.stops.set caller .returned }
  /-- Accepting is impossible. -/
  | collapses {permit : Bool} (attended : b.door = .attended permit) :
      Act b { b with
        cancelled := true
        closing := b.closing ++ b.registered
        running := false
        permits := b.permits + permit.toNat
        door := .shut }
  | closes {id : Nat} {f : Link → Link} (due : id ∈ b.closing)
      (h : ∀ l ∈ b.links, l.Moves (f l))
      (closed : ∀ l ∈ b.links, l.id = id → (f l).isClosed = true) :
      Act b { b with closing := b.closing.erase id, links := b.links.map f }

def Acts : Books → Books → Prop := Relation.ReflTransGen Act

structure Orderly (b : Books) : Prop where
  rising : (b.links.map Link.id).Pairwise (· < ·)
  below : ∀ l ∈ b.links, l.id < b.nextId
  tended : ∀ l ∈ b.links, l.Tended

variable {b b' : Books}

theorem endLink_id (l k : Link) : (endLink l k).id = k.id := by
  unfold endLink
  split
  · rename_i h; exact h.symm
  · rfl

theorem map_endLink_id (l : Link) (links : List Link) :
    (links.map (endLink l)).map Link.id = links.map Link.id := by
  rw [List.map_map]
  exact List.map_congr_left fun k _ => endLink_id l k

theorem map_moves_id {links : List Link} {f : Link → Link} (h : ∀ l ∈ links, l.Moves (f l)) :
    (links.map f).map Link.id = links.map Link.id := by
  rw [List.map_map]
  exact List.map_congr_left fun l hl => (h l hl).id_eq

/-- Numbers are given in rising order. -/
theorem Act.nextId_le (h : Act b b') : b.nextId ≤ b'.nextId := by
  cases h with
  | draws | admits _ _ _ _ _ => exact Nat.le_succ _
  | _ => exact Nat.le_refl _

theorem Acts.nextId_le (h : Acts b b') : b.nextId ≤ b'.nextId := by
  induction h with
  | refl => exact Nat.le_refl _
  | tail _ last ih => exact Nat.le_trans ih last.nextId_le

namespace Orderly

theorem of_links {f : Link → Link} (ho : Orderly b) (hlinks : b'.links = b.links.map f)
    (hnext : b'.nextId = b.nextId) (hid : ∀ l ∈ b.links, (f l).id = l.id)
    (htended : ∀ l ∈ b.links, (f l).Tended) : Orderly b' := by
  have hids : b'.links.map Link.id = b.links.map Link.id := by
    rw [hlinks, List.map_map]
    exact List.map_congr_left hid
  refine ⟨hids ▸ ho.rising, fun l hl => ?_, fun l hl => ?_⟩
  · rw [hlinks] at hl
    obtain ⟨k, hk, rfl⟩ := List.mem_map.1 hl
    rw [hid k hk, hnext]
    exact ho.below k hk
  · rw [hlinks] at hl
    obtain ⟨k, hk, rfl⟩ := List.mem_map.1 hl
    exact htended k hk

/-- A number names one connection. -/
theorem eq_of_id (ho : Orderly b) {k l : Link} (hk : k ∈ b.links) (hl : l ∈ b.links)
    (h : k.id = l.id) : k = l := by
  have hdistinct : (b.links.map Link.id).Nodup := ho.rising.imp Nat.ne_of_lt
  exact List.inj_on_of_nodup_map hdistinct hk hl h

theorem of_moves {f : Link → Link} (ho : Orderly b) (hlinks : b'.links = b.links.map f)
    (hnext : b'.nextId = b.nextId) (h : ∀ l ∈ b.links, l.Moves (f l)) : Orderly b' :=
  ho.of_links hlinks hnext (fun l hl => (h l hl).id_eq)
    fun l hl => (h l hl).tended (ho.tended l hl)

/-- With the connection that is next. -/
theorem concat {l : Link} (ho : Orderly b) (next : l.id = b.nextId) (tended : l.Tended)
    (hlinks : b'.links = b.links ++ [l]) (hnext : b'.nextId = b.nextId + 1) : Orderly b' := by
  refine ⟨?_, fun k hk => ?_, fun k hk => ?_⟩
  · rw [hlinks]
    exact Link.rising_concat ho.rising fun k hk => next ▸ ho.below k hk
  · rw [hnext]
    rcases List.mem_append.1 (hlinks ▸ hk) with hk | hk
    · exact Nat.lt_succ_of_lt (ho.below k hk)
    · rw [List.mem_singleton.1 hk, next]
      exact Nat.lt_succ_self _
  · rcases List.mem_append.1 (hlinks ▸ hk) with hk | hk
    · exact ho.tended k hk
    · rw [List.mem_singleton.1 hk]
      exact tended

theorem act (ho : Orderly b) (h : Act b b') : Orderly b' := by
  cases h with
  | serves h => exact ho.of_moves rfl rfl h
  | closes _ h _ => exact ho.of_moves rfl rfl h
  | draws =>
    exact ⟨ho.rising, fun l hl => Nat.lt_succ_of_lt (ho.below l hl), ho.tended⟩
  | admits _ next tended _ _ => exact ho.concat next tended rfl rfl
  | @ends l mem able =>
    refine ho.of_links rfl rfl (fun k _ => endLink_id l k) fun k hk => ?_
    unfold endLink
    split
    · exact ((ho.tended l mem).ends able).2
    · exact ho.tended k hk
  | opens _ | takes _ _ | yields _ | shuts _ | refuses _ _ | stops _ | drains _ | joins _ _
  | returns _ _ _ _ | collapses _ => exact ⟨ho.rising, ho.below, ho.tended⟩

theorem acts (ho : Orderly b) (h : Acts b b') : Orderly b' := by
  induction h with
  | refl => exact ho
  | tail _ last ih => exact ih.act last

end Orderly

end Books

open Books

theorem orderly_new (s : ServerSetup) : Orderly (new s).books :=
  ⟨List.Pairwise.nil, fun _ hl => absurd hl List.not_mem_nil,
    fun _ hl => absurd hl List.not_mem_nil⟩

/-! ## Notes -/

theorem books_note_logged (line : LogLine) (sv : Server) :
    (sv.note (.logged line)).books = sv.books := rfl

theorem books_noteLines (lines : List LogLine) (sv : Server) :
    (lines.foldl (fun sv line => sv.note (.logged line)) sv).books = sv.books := by
  induction lines generalizing sv with
  | nil => rfl
  | cons line lines ih => exact (ih _).trans (books_note_logged line sv)

theorem books_notify (e : EngineError) : (sv.notify s e).books = (sv.note (.noticed e)).books := by
  have hlines := books_noteLines (s.handler.notice e).lines (sv.note (.noticed e))
  unfold notify
  dsimp only
  split
  · exact hlines
  · exact (books_note_logged _ _).trans hlines

/-- The handler is told of any other error without an entry. -/
theorem books_note_noticed {e : EngineError} (he : e ≠ .tooManyConnections) :
    (sv.note (.noticed e)).books = sv.books := by
  have hnotice : Event.isNotice (.noticed e) = false := by
    cases e <;> first | rfl | exact absurd rfl he
  have hcount : (sv.note (.noticed e)).notices = sv.notices :=
    List.countP_cons_of_neg (by rw [hnotice]; exact Bool.false_ne_true)
  exact congrArg (fun n => { sv.books with notices := n }) hcount

/-! ## Links -/

/-- A link put in the place of the one that it comes from. -/
theorem moves_put (ho : Orderly sv.books) {l l' : Link} (hl : l ∈ sv.links) (h : l.Moves l') :
    ∀ k ∈ sv.links, k.Moves (if k.id = l'.id then l' else k) := by
  intro k hk
  split
  · rename_i hid
    have hsame : k = l := ho.eq_of_id hk hl (hid.trans h.id_eq)
    rw [hsame]
    exact h
  · exact .stays

theorem books_update {l : Link} {totals : Option Metrics}
    (h : totals.map Metrics.gate = some sv.metrics.gate) :
    (sv.update (l, totals)).books = { sv.books with links := l.put sv.links } := by
  cases totals with
  | none => cases h
  | some m =>
    have hgate : m.gate = sv.metrics.gate := Option.some.inj h
    have hactive : m.connectionsActive = sv.metrics.connectionsActive :=
      congrArg (fun g => g.2.1) hgate
    have hrefused : m.connectionsRefused = sv.metrics.connectionsRefused :=
      congrArg (fun g => g.2.2) hgate
    unfold books update
    dsimp only [Option.getD_some]
    rw [hactive, hrefused]
    rfl

theorem exists_of_stepLink {id : Nat} {x : FrameEngine.Label} (h : sv.stepLink id x = some sv') :
    ∃ l l' totals, Link.find? sv.links id = some l ∧
      l.step (some sv.metrics) x = some (l', totals) ∧ sv' = sv.update (l', totals) := by
  unfold stepLink at h
  split at h
  · obtain ⟨⟨l', totals⟩, hstep, rfl⟩ := Option.map_eq_some_iff.1 h
    exact ⟨_, l', totals, ‹_›, hstep, rfl⟩
  · cases h

theorem exists_of_begin {id : Nat} (h : sv.begin id = some sv') :
    ∃ l l' totals, Link.find? sv.links id = some l ∧
      l.begin? (some sv.metrics) = some (l', totals) ∧ sv' = sv.update (l', totals) := by
  unfold begin at h
  split at h
  · obtain ⟨⟨l', totals⟩, hbegin, rfl⟩ := Option.map_eq_some_iff.1 h
    exact ⟨_, l', totals, ‹_›, hbegin, rfl⟩
  · cases h

theorem act_stepLink (ho : Orderly sv.books) {id : Nat} {x : FrameEngine.Label}
    (h : sv.stepLink id x = some sv') : Act sv.books sv'.books := by
  obtain ⟨l, l', totals, hl, hstep, rfl⟩ := exists_of_stepLink h
  rw [books_update (Link.gate_of_step hstep)]
  exact .serves (moves_put ho (Link.mem_of_find? hl).1 (Link.moves_of_step hstep))

theorem act_begin (ho : Orderly sv.books) {id : Nat} (h : sv.begin id = some sv') :
    Act sv.books sv'.books := by
  obtain ⟨l, l', totals, hl, hbegin, rfl⟩ := exists_of_begin h
  rw [books_update (Link.gate_of_begin hbegin)]
  exact .serves (moves_put ho (Link.mem_of_find? hl).1 (Link.moves_of_begin hbegin))

/-- A connection is closed, if it is there, and the others stay as they are. -/
theorem books_closeLink (ho : Orderly sv.books) (id : Nat) :
    ∃ f : Link → Link, (∀ l ∈ sv.links, l.Moves (f l)) ∧
      (∀ l ∈ sv.links, if l.id = id then (f l).isClosed = true else f l = l) ∧
      (sv.closeLink id).books = { sv.books with links := sv.links.map f } := by
  unfold closeLink stepLink
  split
  · rename_i l hl
    obtain ⟨hmem, hid⟩ := Link.mem_of_find? hl
    generalize hstep : l.step (some sv.metrics) .close = r
    cases r with
    | none => cases hstep
    | some p =>
      obtain ⟨l', totals⟩ := p
      have hmoves := Link.moves_of_step hstep
      have hclosed := Link.isClosed_of_close (ho.tended l hmem).kept hstep
      refine ⟨_, moves_put ho hmem hmoves, fun k _ => ?_,
        books_update (Link.gate_of_step hstep)⟩
      rw [hmoves.id_eq, hid]
      split
      · exact hclosed
      · rfl
  · rename_i hnone
    refine ⟨fun l => l, fun l _ => .stays, fun l hl => ?_, ?_⟩
    · split
      · rename_i hid
        exact absurd (decide_eq_true hid) (List.find?_eq_none.1 hnone l hl)
      · rfl
    · rw [List.map_id']
      rfl

/-! ## The accept loop -/

/-- A round begins; whatever the loop had in its hands before is not there any more. -/
theorem acts_acceptRound (sv : Server) (backoff : Backoff) :
    Acts { sv.books with door := .attended false } (sv.acceptRound backoff).books := by
  unfold acceptRound
  split
  · rename_i hfree
    obtain ⟨n, hn⟩ := Nat.exists_eq_succ_of_ne_zero (Nat.ne_of_gt hfree)
    have htakes : Act { sv.books with door := .attended false }
        { sv.books with permits := n, door := .attended true } := .takes rfl hn
    have hsub : sv.permits - 1 = n := by rw [hn]; rfl
    rw [hsub]
    exact .single htakes
  · exact .refl

/-- A round changes nothing but who has which permit. -/
theorem books_acceptRound (sv : Server) (backoff : Backoff) : ∃ permits door,
    (sv.acceptRound backoff).books = { sv.books with permits, door } := by
  unfold acceptRound
  split <;> exact ⟨_, _, rfl⟩

theorem acts_acceptRound_of (hdoor : sv.acceptor.door = .attended false) (backoff : Backoff) :
    Acts sv.books (sv.acceptRound backoff).books := by
  have hsame : { sv.books with door := .attended false } = sv.books := by
    rw [← hdoor]
    rfl
  rw [← hsame]
  exact acts_acceptRound sv backoff

theorem books_exitAcceptor (permit : Bool) (sv : Server) :
    (sv.exitAcceptor permit).books =
      { sv.books with permits := sv.permits + permit.toNat, door := .shut } := by
  cases permit <;> rfl

theorem act_exitAcceptor {permit : Bool} (hdoor : sv.acceptor.door = .attended permit) :
    Act sv.books (sv.exitAcceptor permit).books := by
  rw [books_exitAcceptor]
  exact .shuts hdoor

/-- The server goes down, all but the accept loop. -/
theorem books_fail (f : IoFailure) : (sv.fail s f).books =
    { sv.books with
      cancelled := true, closing := sv.closing ++ sv.registered, running := false } := by
  have hfall : ∀ told : Server, told.books = sv.books →
      books { { told with cancelled := true }.closeAll with running := false } =
        { sv.books with
          cancelled := true, closing := sv.closing ++ sv.registered, running := false } := by
    intro told htold
    have hsweep : books { { told with cancelled := true }.closeAll with running := false } =
        { told.books with
          cancelled := true
          closing := told.books.closing ++ told.books.registered
          running := false } := rfl
    rw [hsweep, htold]
    rfl
  exact hfall _ ((books_notify _).trans (books_note_noticed nofun))

theorem act_collapse {permit : Bool} (hdoor : sv.acceptor.door = .attended permit) (f : IoFailure) :
    Act sv.books ((sv.fail s f).exitAcceptor permit).books := by
  have hpermits : (sv.fail s f).permits = sv.permits := congrArg Books.permits (books_fail f)
  rw [books_exitAcceptor, hpermits, books_fail]
  exact .collapses hdoor

theorem acts_acceptFailed {permit : Bool} (hdoor : sv.acceptor.door = .attended permit)
    (f : IoFailure) (backoff : Backoff) :
    Acts sv.books (sv.acceptFailed s f permit backoff).books := by
  unfold acceptFailed
  split
  · rename_i hretry
    have hsame : sv.books = { sv.books with door := .attended permit } := by
      rw [← hdoor]
      rfl
    rw [hsame]
    exact .refl
  · exact .single (act_collapse hdoor f)

/-- A connection that comes from a socket: it is new, or closed at once. -/
structure Enters (sv : Server) (peer : String) (l : Link) : Prop where
  id : l.id = sv.nextId
  peer : l.setup.peer = some peer
  tended : l.Tended
  lives : l.ended = false
  late : sv.cancelled = true → l.isClosed = true

theorem books_letIn (ho : Orderly sv.books) (peer : String) :
    ∃ l, Enters sv peer l ∧ (sv.letIn s peer).books = sv.books.enter l := by
  have hletIn : ∀ entered : Server, entered.cancelled = sv.cancelled →
      entered.books = sv.books.enter (sv.nextLink s peer) →
      ∃ l, Enters sv peer l ∧
        (if entered.cancelled then entered.closeLink sv.nextId else entered).books =
          sv.books.enter l := by
    intro entered hcancelled hbooks
    have hlinks : entered.links = sv.links ++ [sv.nextLink s peer] := congrArg Books.links hbooks
    have htended : (sv.nextLink s peer).Tended := Link.tended_new _ _
    split
    · have hentered : Orderly entered.books :=
        ho.concat rfl htended hlinks (congrArg Books.nextId hbooks)
      obtain ⟨f, hmoves, hf, hclose⟩ := books_closeLink hentered sv.nextId
      rw [hlinks] at hmoves hf hclose
      have hnew := hmoves _ List.mem_concat_self
      have hclosed := hf _ List.mem_concat_self
      have hnext : (sv.nextLink s peer).id = sv.nextId := rfl
      rw [if_pos hnext] at hclosed
      have hothers : sv.links.map f = sv.links := by
        refine (List.map_congr_left fun k hk => ?_).trans (List.map_id' _)
        have hk' := hf k (List.mem_append_left _ hk)
        have hne : k.id ≠ sv.nextId := Nat.ne_of_lt (ho.below k hk)
        rw [if_neg hne] at hk'
        exact hk'
      rw [List.map_append, hothers, hbooks] at hclose
      exact ⟨f (sv.nextLink s peer), ⟨hnew.id_eq, congrArg Setup.peer hnew.setup_eq,
        hnew.tended htended, hnew.ended_eq, fun _ => hclosed⟩, hclose⟩
    · rename_i hlives
      exact ⟨sv.nextLink s peer, ⟨rfl, rfl, htended, rfl,
        fun hc => absurd (hcancelled.trans hc) hlives⟩, hbooks⟩
  exact hletIn _ rfl rfl

/-- A socket is turned away. -/
theorem books_refuse (s : ServerSetup) (sv : Server) (peer : String) :
    (sv.refuse s peer).books =
    { sv.books with
      refused := sv.metrics.connectionsRefused + 1
      refusals := sv.refusals + 1
      notices := sv.notices + 1 } := by
  have hcounts : ∀ line : LogLine,
      ((((sv.record .connectionRefused).note (.refused peer)).note (.logged line)).note
        (.noticed .tooManyConnections)).books =
      { sv.books with
        refused := sv.metrics.connectionsRefused + 1
        refusals := sv.refusals + 1
        notices := sv.notices + 1 } := by
    intro line
    have hrefusals : List.countP Event.isRefusal (.refused peer :: sv.history) =
        sv.refusals + 1 := List.countP_cons_of_pos rfl
    have hnotices : List.countP Event.isNotice (.noticed .tooManyConnections :: sv.history) =
        sv.notices + 1 := List.countP_cons_of_pos rfl
    exact congrArg₂ (fun refusals notices => { sv.books with
      refused := sv.metrics.connectionsRefused + 1, refusals, notices }) hrefusals hnotices
  unfold refuse
  exact (books_notify _).trans (hcounts _)

theorem acts_accepted (ho : Orderly sv.books) {permit : Bool} {backoff : Backoff}
    (hdoor : sv.acceptor.door = .attended permit) (hfull : permit = false → sv.permits = 0)
    (r : Except IoFailure String) : Acts sv.books (sv.accepted s permit backoff r).books := by
  unfold accepted
  split
  · rename_i peer
    split
    · rename_i hpermit
      obtain ⟨l, hl, hbooks⟩ := books_letIn (s := s) ho peer
      have hadmits : Act sv.books { (sv.letIn s peer).books with door := .attended false } := by
        rw [hbooks]
        exact .admits (hpermit ▸ hdoor) hl.id hl.tended hl.lives hl.late
      exact .head hadmits (acts_acceptRound _ _)
    · rename_i hpermit
      have hnone : permit = false := Bool.eq_false_iff.2 hpermit
      have hempty : sv.acceptor.door = .attended false := hnone ▸ hdoor
      have hafter : ∀ resume : Span,
          books { sv.refuse s peer with acceptor := .refusing resume backoff.reset } =
            { sv.books with
              refused := sv.metrics.connectionsRefused + 1
              refusals := sv.refusals + 1
              notices := sv.notices + 1 } := by
        intro resume
        have hrefused := congrArg (fun b => { b with door := .attended false })
          (books_refuse s sv peer)
        refine hrefused.trans ?_
        rw [← hempty]
        rfl
      dsimp only
      rw [hafter]
      exact .single (.refuses hempty (hfull hnone))
  · exact acts_acceptFailed hdoor _ _

/-- The loop waits for a socket, without a permit only if none is free. -/
theorem exists_of_accept {r : Except IoFailure String} (h : sv.accept s r = some sv') :
    ∃ permit backoff, sv.acceptor = .waiting permit backoff ∧
      (permit = false → sv.permits = 0) ∧ sv' = sv.accepted s permit backoff r := by
  unfold accept at h
  split at h
  · rename_i permit backoff hwaits
    split at h
    · cases h
    · rename_i htaken
      cases h
      refine ⟨permit, backoff, hwaits, fun hpermit => ?_, rfl⟩
      rw [hpermit] at htaken
      exact Nat.eq_zero_of_not_pos fun hfree => htaken (by simpa using hfree)
  · cases h

theorem acts_accept (ho : Orderly sv.books) {r : Except IoFailure String}
    (h : sv.accept s r = some sv') : Acts sv.books sv'.books := by
  obtain ⟨permit, backoff, hwaits, hfull, rfl⟩ := exists_of_accept h
  exact acts_accepted ho (by rw [hwaits]; rfl) hfull r

theorem acts_acceptGo (h : sv.acceptGo s = some sv') : Acts sv.books sv'.books := by
  unfold acceptGo at h
  split at h
  · rename_i hfresh
    cases h
    exact acts_acceptRound_of (by rw [hfresh]; rfl) _
  · rename_i hwaits
    split at h
    · cases h
    · cases h
      exact acts_acceptRound_of (by rw [hwaits]; rfl) _
  · cases h

theorem acts_acceptCancelled (h : sv.acceptCancelled = some sv') : Acts sv.books sv'.books := by
  unfold acceptCancelled at h
  split at h
  · split at h
    · rename_i hwaits
      cases h
      exact .single (act_exitAcceptor (by rw [hwaits]; rfl))
    · rename_i hwaits
      cases h
      exact .single (act_exitAcceptor (by rw [hwaits]; rfl))
    · rename_i hwaits
      cases h
      exact .single (act_exitAcceptor (by rw [hwaits]; rfl))
    · cases h
  · cases h

/-- A permit that was kept over a pause is free before the round. -/
theorem acts_acceptTimer (h : sv.acceptTimer = some sv') : Acts sv.books sv'.books := by
  unfold acceptTimer at h
  split at h
  · rename_i hrefusing
    split at h
    · cases h
      exact acts_acceptRound_of (by rw [hrefusing]; rfl) _
    · cases h
  · rename_i resume permit backoff hretrying
    split at h
    · cases h
      have hdoor : sv.acceptor.door = .attended permit := by rw [hretrying]; rfl
      cases permit with
      | false => exact acts_acceptRound_of hdoor _
      | true =>
        exact .head (.yields hdoor) (acts_acceptRound { sv with permits := sv.permits + 1 } _)
    · cases h
  · cases h

/-! ## Ends and stops -/

theorem active_closed (m : Metrics) : (m.record .connectionClosed).connectionsActive =
    if m.connectionsActive = 0 then m.connectionsActive else m.connectionsActive - 1 := by
  simp only [Metrics.record]
  split <;> rfl

theorem refused_closed (m : Metrics) :
    (m.record .connectionClosed).connectionsRefused = m.connectionsRefused := by
  simp only [Metrics.record]
  split <;> rfl

theorem act_finish {id : Nat} (h : sv.finish id = some sv') : Act sv.books sv'.books := by
  unfold finish at h
  split at h
  · rename_i l hl
    obtain ⟨hmem, hid⟩ := Link.mem_of_find? hl
    split at h
    · rename_i hend
      cases h
      have hends : Act sv.books _ := .ends hmem hend
      rw [hid] at hends
      unfold books record
      dsimp only
      rw [active_closed, refused_closed]
      exact hends
    · cases h
  · cases h

theorem act_stop (sv : Server) : Act sv.books sv.stop.books := by
  have hstop : ∀ told : Server, told.books = { sv.books with stopped := true, cancelled := true } →
      Act sv.books
        (if told.joinable then
            { told with joinable := false, stops := told.stops ++ [StopCall.joining !sv.stopped] }
          else
            { told.drain with stops := told.stops ++ [StopCall.draining !sv.stopped] }).books := by
    intro told htold
    split
    · have hjoins : books
            { told with joinable := false, stops := told.stops ++ [.joining !sv.stopped] } =
          { told.books with stops := told.books.stops ++ [.joining !sv.stopped] } := rfl
      rw [hjoins, htold]
      exact .stops _
    · have hdrains : books { told.drain with stops := told.stops ++ [.draining !sv.stopped] } =
          { told.books with
            closing := told.books.closing ++ told.books.registered
            stops := told.books.stops ++ [.draining !sv.stopped] } := rfl
      rw [hdrains, htold]
      exact .drains _
  unfold stop
  dsimp only
  refine hstop _ ?_
  split <;> rfl

theorem act_stopGo {caller : Nat} (h : sv.stopGo caller = some sv') : Act sv.books sv'.books := by
  unfold stopGo at h
  split at h
  · rename_i first hwaits
    split at h
    · rename_i hover
      cases h
      exact .joins hwaits (Acceptor.door_eq_shut.2 hover)
    · cases h
  · rename_i first hwaits
    split at h
    · rename_i hquiet
      cases h
      simp only [isQuiet, Bool.and_eq_true, List.isEmpty_iff, List.all_eq_true] at hquiet
      obtain ⟨⟨hover, hswept⟩, hended⟩ := hquiet
      have hreturns : Act sv.books _ :=
        .returns hwaits (Acceptor.door_eq_shut.2 hover) hswept hended
      have hlogged : (sv.stopReturn caller first).books =
          { sv.books with running := false, stops := sv.stops.set caller .returned } := by
        cases first <;> rfl
      rw [hlogged]
      exact hreturns
    · cases h
  · cases h

theorem act_start {address : String} (h : sv.start s address = .ok sv') :
    Act sv.books sv'.books := by
  unfold start at h
  split at h
  · cases h
  · rename_i hfresh
    have hidle : sv.stopped = false ∧ sv.running = false := by simpa using hfresh
    cases h
    exact .opens hidle

/-! ## Steps -/

theorem moves_tick (timers wall : Span) (l : Link) :
    l.Moves (((l.step none (.tick timers wall)).map Prod.fst).getD l) := by
  cases h : l.step none (.tick timers wall) with
  | none => exact .stays
  | some p => exact Link.moves_of_step h

/-- A link on which a frame is queued, if it is registered and takes it. -/
def offer (registered : List Nat) (frame : Octets) (l : Link) : Link :=
  if registered.contains l.id then
    { l with connection := (l.connection.sendFrame frame).toOption.getD l.connection }
  else l

theorem moves_offer (registered : List Nat) (frame : Octets) (l : Link) :
    l.Moves (offer registered frame l) := by
  unfold offer
  split
  · have hstep : { l.connection with totals := l.connection.totals }.step l.setup
        (.sendFrame frame) =
        some ((l.connection.sendFrame frame).toOption.getD l.connection) := rfl
    exact .steps hstep
  · exact .stays

theorem links_deliver (registered : List Nat) (frame : Octets) (links : List Link) :
    (deliver registered frame links).links = links.map (offer registered frame) := by
  induction links with
  | nil => rfl
  | cons l links ih =>
    rw [List.map_cons, ← ih, deliver, offer]
    split
    · split
      · rename_i c hsent
        rw [hsent]
        rfl
      · rename_i e hsent
        rw [hsent]
        rfl
    · rfl

/-- The frame is offered to each connection, and a line is logged for each that does not take it. -/
theorem exists_of_broadcast {m : Message} {count : Nat} (h : sv.broadcast s m = .ok (count, sv')) :
    ∃ (frame : Octets) (lines : List LogLine),
      sv' = lines.foldl (fun sv line => sv.note (.logged line))
        { sv with links := (deliver sv.registered frame sv.links).links } := by
  unfold broadcast at h
  split at h
  · cases h
  · rename_i frame _
    obtain ⟨-, rfl⟩ := Prod.mk.inj (Except.ok.inj h)
    refine ⟨frame, (deliver sv.registered frame sv.links).skipped.map skippedLine, ?_⟩
    rw [List.foldl_map]

theorem act_broadcast {m : Message} {n : Nat} (h : sv.broadcast s m = .ok (n, sv')) :
    Act sv.books sv'.books := by
  obtain ⟨frame, lines, rfl⟩ := exists_of_broadcast h
  rw [books_noteLines]
  show Act sv.books { sv.books with links := (deliver sv.registered frame sv.links).links }
  rw [links_deliver]
  exact .serves fun l _ => moves_offer _ _ l

theorem act_closeGo (ho : Orderly sv.books) {id : Nat} (hdue : id ∈ sv.closing) :
    Act sv.books ({ sv with closing := sv.closing.erase id }.closeLink id).books := by
  have hsame : Orderly { sv with closing := sv.closing.erase id }.books :=
    ⟨ho.rising, ho.below, ho.tended⟩
  obtain ⟨f, hmoves, hclosed, hbooks⟩ := books_closeLink hsame id
  rw [hbooks]
  refine .closes hdue hmoves fun l hl hid => ?_
  have hl' := hclosed l hl
  rwa [if_pos hid] at hl'

theorem start_of_step {address : String} (h : sv.step s (.start address) = some sv') :
    sv.start s address = .ok sv' := by
  rw [step] at h
  cases hstart : sv.start s address <;> rw [hstart] at h <;> cases h
  rfl

theorem broadcast_of_step {m : Message} (h : sv.step s (.broadcast m) = some sv') :
    ∃ count, sv.broadcast s m = .ok (count, sv') := by
  obtain ⟨⟨count, sv₁⟩, hsent, rfl⟩ := Option.map_eq_some_iff.1 h
  cases hb : sv.broadcast s m <;> rw [hb] at hsent <;> cases hsent
  exact ⟨count, rfl⟩

theorem due_of_closeGo {id : Nat} (h : sv.step s (.closeGo id) = some sv') :
    id ∈ sv.closing ∧ sv' = { sv with closing := sv.closing.erase id }.closeLink id := by
  rw [step] at h
  split at h <;> cases h
  exact ⟨List.contains_iff_mem.1 ‹_›, rfl⟩

theorem acts_step (ho : Orderly sv.books) {x : Label} (h : sv.step s x = some sv') :
    Acts sv.books sv'.books := by
  cases x with
  | tick timers wall =>
    cases h
    exact .single (.serves fun l _ => moves_tick timers wall l)
  | drawId => cases h; exact .single .draws
  | start address => exact .single (act_start (start_of_step h))
  | stop => cases h; exact .single (act_stop sv)
  | stopGo caller => exact .single (act_stopGo h)
  | acceptGo => exact acts_acceptGo h
  | acceptCancelled => exact acts_acceptCancelled h
  | acceptTimer => exact acts_acceptTimer h
  | accept r => exact acts_accept ho h
  | begin id => exact .single (act_begin ho h)
  | finish id => exact .single (act_finish h)
  | closeGo id =>
    obtain ⟨hdue, rfl⟩ := due_of_closeGo h
    exact .single (act_closeGo ho hdue)
  | close id => exact .single (act_stepLink ho h)
  | send id m => exact .single (act_stepLink ho h)
  | broadcast m =>
    obtain ⟨count, hsent⟩ := broadcast_of_step h
    exact .single (act_broadcast hsent)
  | startRequested id => exact .single (act_stepLink ho h)
  | wake id task w => exact .single (act_stepLink ho h)

theorem acts_of_steps {ls : List Label} (run : Steps s sv ls sv') :
    Orderly sv.books → Orderly sv'.books ∧ Acts sv.books sv'.books := by
  induction run with
  | nil sv => exact fun ho => ⟨ho, .refl⟩
  | cons first _ ih =>
    intro ho
    have hfirst := acts_step ho first
    obtain ⟨hrest, hacts⟩ := ih (ho.acts hfirst)
    exact ⟨hrest, hfirst.trans hacts⟩

/-- The server after a list of labels, if each is possible when it comes. -/
def follow (s : ServerSetup) : Server → List Label → Option Server
  | sv, [] => some sv
  | sv, x :: ls => (sv.step s x).bind fun sv => follow s sv ls

theorem steps_of_follow {ls : List Label} (h : follow s sv ls = some sv') : Steps s sv ls sv' := by
  induction ls generalizing sv with
  | nil => cases h; exact .nil _
  | cons x ls ih =>
    obtain ⟨sv₁, first, rest⟩ := Option.bind_eq_some_iff.1 h
    exact .cons first (ih rest)

end Server
end FrameEngine
