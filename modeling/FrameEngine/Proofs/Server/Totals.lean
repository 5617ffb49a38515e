import FrameEngine.Proofs.Connection.Retries
import FrameEngine.Proofs.Server.Books
import Mathlib.Algebra.GroupWithZero.Nat

/-!
# FrameEngine.Proofs.Server.Totals

A server counts for itself what its connections count, each for itself. Its counters are lent to a
connection for a step and taken back, so the two are never the same number, and yet they belong
together: a step adds to the server's counters what it adds to those of one connection (`Posts`).
Connections never leave the list of those that were let in, so the server's counters stay the sums
over all of them. Only retries has a share that is of no connection, for attempts to accept.
-/

namespace FrameEngine

/-- A counter that a connection has of its work, and a server of all work of its connections. -/
inductive Counter where
  | messagesSent
  | messagesReceived
  | bytesSent
  | bytesReceived
  | protocolErrors
  | bufferOverflows
  | idleTimeouts
  | retries

namespace Counter

def read : Counter → Metrics → UInt64
  | messagesSent => Metrics.messagesSent
  | messagesReceived => Metrics.messagesReceived
  | bytesSent => Metrics.bytesSent
  | bytesReceived => Metrics.bytesReceived
  | protocolErrors => Metrics.protocolErrors
  | bufferOverflows => Metrics.bufferOverflows
  | idleTimeouts => Metrics.idleTimeouts
  | retries => Metrics.retries

/-- What a tally adds to it. -/
def added : Counter → Tally → UInt64
  | messagesSent, .messageSent _ => 1
  | bytesSent, .messageSent n => .ofNat n
  | messagesReceived, .messageReceived => 1
  | bytesReceived, .bytesRead n => .ofNat n
  | protocolErrors, .protocolError => 1
  | bufferOverflows, .bufferOverflow => 1
  | idleTimeouts, .idleTimeout => 1
  | retries, .retry => 1
  | _, _ => 0

/-- What attempts to accept that were granted have to do with it. -/
def share : Counter → Nat → Nat
  | retries, n => n
  | _, _ => 0

theorem share_zero (k : Counter) : k.share 0 = 0 := by cases k <;> rfl

theorem share_add (k : Counter) (m n : Nat) : k.share (m + n) = k.share m + k.share n := by
  cases k <;> rfl

theorem read_same (k : Counter) (m : Metrics) : k.read m = k.read m + .ofNat (k.share 0) := by
  rw [k.share_zero]
  exact (UInt64.add_zero _).symm

theorem read_zero (k : Counter) : k.read .zero = 0 := by cases k <;> rfl

theorem read_closed (k : Counter) (m : Metrics) :
    k.read (m.record .connectionClosed) = k.read m := by
  simp only [Metrics.record]
  split
  · rfl
  · cases k <;> rfl

theorem read_record (k : Counter) (m : Metrics) (t : Tally) :
    k.read (m.record t) = k.read m + k.added t := by
  cases t with
  | connectionClosed =>
    rw [read_closed]
    cases k <;> exact (UInt64.add_zero _).symm
  | _ => cases k <;> first | rfl | exact (UInt64.add_zero _).symm

/-- Tallies add the same, wherever they are taken. -/
theorem read_recordAll (k : Counter) (tallies : List Tally) :
    ∃ d, ∀ m : Metrics, k.read (m.recordAll tallies) = k.read m + d := by
  induction tallies with
  | nil => exact ⟨0, fun m => (UInt64.add_zero _).symm⟩
  | cons t tallies ih =>
    obtain ⟨d, hd⟩ := ih
    refine ⟨k.added t + d, fun m => ?_⟩
    have hrest := hd (m.record t)
    rw [read_record, UInt64.add_assoc] at hrest
    exact hrest

end Counter

/-! ## Sums over connections -/

/-- The sum of what connections have counted, each for itself. -/
def summed (count : Metrics → UInt64) (links : List Link) : Nat :=
  (links.map fun l => (count l.connection.metrics).toNat).sum

theorem summed_cons (count : Metrics → UInt64) (l : Link) (links : List Link) :
    UInt64.ofNat (summed count (l :: links)) =
      count l.connection.metrics + .ofNat (summed count links) := by
  simp only [summed, List.map_cons, List.sum_cons, UInt64.ofNat_add, UInt64.ofNat_toNat]

theorem summed_concat (count : Metrics → UInt64) (links : List Link) (l : Link) :
    UInt64.ofNat (summed count (links ++ [l])) =
      .ofNat (summed count links) + count l.connection.metrics := by
  simp only [summed, List.map_append, List.map_cons, List.map_nil, List.sum_append, List.sum_cons,
    List.sum_nil, Nat.add_zero, UInt64.ofNat_add, UInt64.ofNat_toNat]

theorem summed_map (count : Metrics → UInt64) {links : List Link} {f : Link → Link}
    (h : ∀ l ∈ links, (f l).connection.metrics = l.connection.metrics) :
    summed count (links.map f) = summed count links := by
  unfold summed
  rw [List.map_map]
  refine congrArg List.sum (List.map_congr_left fun l hl => ?_)
  exact congrArg (fun m => (count m).toNat) (h l hl)

/-- A connection in the place of the one with its number: the sum grows by what it has more. -/
theorem summed_put {count : Metrics → UInt64} {l l' : Link} {links : List Link} {d : UInt64}
    (distinct : (links.map Link.id).Nodup) (mem : l ∈ links) (hid : l'.id = l.id)
    (hd : count l'.connection.metrics = count l.connection.metrics + d) :
    UInt64.ofNat (summed count (l'.put links)) = .ofNat (summed count links) + d := by
  induction links with
  | nil => cases mem
  | cons k links ih =>
    obtain ⟨hfirst, hrest⟩ := List.nodup_cons.1 distinct
    have hput : l'.put (k :: links) = (if k.id = l'.id then l' else k) :: l'.put links := rfl
    by_cases hk : k.id = l'.id
    · have hsame : k = l := by
        rcases List.mem_cons.1 mem with hl | hl
        · exact hl.symm
        · exact absurd (hk.trans hid ▸ List.mem_map_of_mem hl) hfirst
      rw [hput, if_pos hk, Link.put_of_not_mem (hk ▸ hfirst), summed_cons, summed_cons, hd, hsame]
      ac_rfl
    · have hmem : l ∈ links := by
        rcases List.mem_cons.1 mem with rfl | hl
        · exact absurd hid.symm hk
        · exact hl
      rw [hput, if_neg hk, summed_cons, summed_cons, ih hrest hmem]
      ac_rfl

namespace Link

variable {l l' : Link} {m : Metrics} {left : Option Metrics}

/-- What is added to the counters of the connection is added to others, too. -/
structure Shares (l l' : Link) (m m' : Metrics) : Prop where
  counters : ∀ k : Counter, ∃ d,
    k.read l'.connection.metrics = k.read l.connection.metrics + d ∧ k.read m' = k.read m + d
  total : m'.connectionsTotal = m.connectionsTotal

theorem shares_of_step {x : FrameEngine.Label} (h : l.step (some m) x = some (l', left)) :
    ∃ m', left = some m' ∧ l.Shares l' m m' := by
  have hgate := gate_of_step h
  obtain ⟨c, hc, rfl, rfl⟩ := exists_of_step h
  obtain ⟨tallies, -, -, hmetrics, htotals⟩ := Connection.counted_of_step hc
  have hlent : c.totals = some (m.recordAll tallies) := htotals
  rw [hlent] at hgate
  refine ⟨m.recordAll tallies, hlent, fun k => ?_, congrArg Prod.fst (Option.some.inj hgate)⟩
  obtain ⟨d, hd⟩ := k.read_recordAll tallies
  exact ⟨d, (congrArg k.read hmetrics).trans (hd _), hd m⟩

theorem shares_of_begin (h : l.begin? (some m) = some (l', left)) :
    ∃ m', left = some m' ∧ l.Shares l' m m' := by
  obtain ⟨loops, -, hstep⟩ := exists_of_begin h
  obtain ⟨m', hleft, shares⟩ := shares_of_step hstep
  exact ⟨m', hleft, shares.counters, shares.total⟩

end Link

namespace Server

variable {s : ServerSetup} {sv sv' sv'' : Server} {n : Nat}

/-- The backoff that is asked for a delay in a step, for another attempt to accept. -/
def asks (sv : Server) : Label → Option Backoff
  | .accept (.error f) =>
    match sv.acceptor with
    | .waiting _ b => if f.kind.isAcceptRetryable then some b else none
    | _ => none
  | _ => none

/-- How many delays are granted along a run, for attempts to accept. -/
def grants (s : ServerSetup) (sv : Server) : List Label → Nat
  | [] => 0
  | x :: ls =>
    Backoff.grants (sv.asks x) +
      match sv.step s x with
      | some sv' => grants s sv' ls
      | none => 0

/-- The server's counters have grown by what those of its connections have grown by, and by so many
retries; and it has counted the connections that have come. -/
structure Posts (retried : Nat) (sv sv' : Server) : Prop where
  counters : ∀ k : Counter, ∃ d,
    UInt64.ofNat (summed k.read sv'.links) = .ofNat (summed k.read sv.links) + d ∧
      k.read sv'.metrics = k.read sv.metrics + d + .ofNat (k.share retried)
  admitted : ∃ more, sv'.links.length = sv.links.length + more ∧
    sv'.metrics.connectionsTotal = sv.metrics.connectionsTotal + .ofNat more

namespace Posts

/-- The links may change in all but what they have counted, and the server may count what is not of
any of them. -/
theorem of_map {f : Link → Link} (hlinks : sv'.links = sv.links.map f)
    (hf : ∀ l ∈ sv.links, (f l).connection.metrics = l.connection.metrics)
    (hread : ∀ k : Counter, k.read sv'.metrics = k.read sv.metrics + .ofNat (k.share n))
    (htotal : sv'.metrics.connectionsTotal = sv.metrics.connectionsTotal) : Posts n sv sv' := by
  refine ⟨fun k => ⟨0, ?_, ?_⟩, 0, ?_, ?_⟩
  · rw [hlinks, summed_map k.read hf, UInt64.add_zero]
  · rw [hread, UInt64.add_zero]
  · rw [hlinks, List.length_map]; rfl
  · rw [htotal]; exact (UInt64.add_zero _).symm

theorem of_read (hlinks : sv'.links = sv.links)
    (hread : ∀ k : Counter, k.read sv'.metrics = k.read sv.metrics)
    (htotal : sv'.metrics.connectionsTotal = sv.metrics.connectionsTotal) : Posts 0 sv sv' := by
  refine of_map (hlinks.trans (List.map_id' _).symm) (fun _ _ => rfl) (fun k => ?_) htotal
  rw [hread]
  exact k.read_same _

theorem of_ledger (hlinks : sv'.links = sv.links) (hmetrics : sv'.metrics = sv.metrics) :
    Posts 0 sv sv' :=
  of_read hlinks (fun k => congrArg k.read hmetrics) (congrArg Metrics.connectionsTotal hmetrics)

/-- A retry of the server's own. -/
theorem of_retry (hlinks : sv'.links = sv.links) (hmetrics : sv'.metrics = sv.metrics.record .retry) :
    Posts 1 sv sv' := by
  refine of_map (hlinks.trans (List.map_id' _).symm) (fun _ _ => rfl) (fun k => ?_) ?_
  · have hshare : k.added .retry = .ofNat (k.share 1) := by cases k <;> rfl
    rw [hmetrics, k.read_record, hshare]
  · rw [hmetrics]
    rfl

theorem refl (sv : Server) : Posts 0 sv sv := of_ledger rfl rfl

theorem trans {more : Nat} (h : Posts n sv sv') (h' : Posts more sv' sv'') :
    Posts (n + more) sv sv'' := by
  refine ⟨fun k => ?_, ?_⟩
  · obtain ⟨d, hlinks, hmetrics⟩ := h.counters k
    obtain ⟨d', hlinks', hmetrics'⟩ := h'.counters k
    refine ⟨d + d', ?_, ?_⟩
    · rw [hlinks', hlinks, UInt64.add_assoc]
    · rw [hmetrics', hmetrics, k.share_add, UInt64.ofNat_add]
      ac_rfl
  · obtain ⟨come, hlength, htotal⟩ := h.admitted
    obtain ⟨come', hlength', htotal'⟩ := h'.admitted
    refine ⟨come + come', ?_, ?_⟩
    · rw [hlength', hlength, Nat.add_assoc]
    · rw [htotal', htotal, UInt64.ofNat_add, UInt64.add_assoc]

theorem andThen (h : Posts n sv sv') (hlinks : sv''.links = sv'.links)
    (hmetrics : sv''.metrics = sv'.metrics) : Posts n sv sv'' :=
  h.trans (of_ledger hlinks hmetrics)

end Posts

/-! ## Links -/

/-- A link changes, by whatever it has counted for itself and for the server. -/
theorem posts_put (ho : Books.Orderly sv.books) {l : Link} (l' : Link) (mem : l ∈ sv.links)
    (hid : l'.id = l.id) (hlinks : sv'.links = l'.put sv.links)
    (shares : l.Shares l' sv.metrics sv'.metrics) : Posts 0 sv sv' := by
  refine ⟨fun k => ?_, 0, ?_, ?_⟩
  · obtain ⟨d, hown, hread⟩ := shares.counters k
    refine ⟨d, ?_, ?_⟩
    · rw [hlinks]
      exact summed_put (ho.rising.imp Nat.ne_of_lt) mem hid hown
    · rw [hread, k.share_zero]
      exact (UInt64.add_zero _).symm
  · rw [hlinks]
    exact List.length_map _
  · exact shares.total.trans (UInt64.add_zero _).symm

theorem posts_update (ho : Books.Orderly sv.books) {l l' : Link} {left : Option Metrics}
    (mem : l ∈ sv.links) (hid : l'.id = l.id)
    (h : ∃ m', left = some m' ∧ l.Shares l' sv.metrics m') : Posts 0 sv (sv.update (l', left)) := by
  obtain ⟨m', rfl, shares⟩ := h
  exact posts_put ho l' mem hid rfl shares

theorem posts_stepLink (ho : Books.Orderly sv.books) {id : Nat} {x : FrameEngine.Label}
    (h : sv.stepLink id x = some sv') : Posts 0 sv sv' := by
  obtain ⟨l, l', totals, hl, hstep, rfl⟩ := exists_of_stepLink h
  exact posts_update ho (Link.mem_of_find? hl).1 (Link.moves_of_step hstep).id_eq
    (Link.shares_of_step hstep)

theorem posts_begin (ho : Books.Orderly sv.books) {id : Nat} (h : sv.begin id = some sv') :
    Posts 0 sv sv' := by
  obtain ⟨l, l', totals, hl, hbegin, rfl⟩ := exists_of_begin h
  exact posts_update ho (Link.mem_of_find? hl).1 (Link.moves_of_begin hbegin).id_eq
    (Link.shares_of_begin hbegin)

theorem posts_closeLink (ho : Books.Orderly sv.books) (id : Nat) : Posts 0 sv (sv.closeLink id) := by
  unfold closeLink
  cases h : sv.stepLink id .close with
  | none => exact .refl sv
  | some sv' => exact posts_stepLink ho h

theorem total_closed (m : Metrics) :
    (m.record .connectionClosed).connectionsTotal = m.connectionsTotal := by
  simp only [Metrics.record]
  split <;> rfl

/-- The task of a connection ends, which changes none of its counters. -/
theorem posts_finish (ho : Books.Orderly sv.books) {id : Nat} (h : sv.finish id = some sv') :
    Posts 0 sv sv' := by
  unfold finish at h
  split at h
  · rename_i l hl
    split at h
    · cases h
      have shares : l.Shares { l with ended := true } sv.metrics
          (sv.metrics.record .connectionClosed) := by
        refine ⟨fun k => ⟨0, (UInt64.add_zero _).symm, ?_⟩, total_closed _⟩
        rw [k.read_closed, UInt64.add_zero]
      exact posts_put ho { l with ended := true } (Link.mem_of_find? hl).1 rfl rfl shares
    · cases h
  · cases h

/-! ## Accepting -/

/-- The counters and the connections, and nothing else of a server. -/
def ledger (sv : Server) : Metrics × List Link := (sv.metrics, sv.links)

theorem Posts.of_ledger_eq (h : sv'.ledger = sv.ledger) : Posts 0 sv sv' :=
  .of_ledger (congrArg Prod.snd h) (congrArg Prod.fst h)

theorem ledger_noteLines (lines : List LogLine) (sv : Server) :
    (lines.foldl (fun sv line => sv.note (.logged line)) sv).ledger = sv.ledger := by
  induction lines generalizing sv with
  | nil => rfl
  | cons line lines ih => exact ih _

theorem ledger_notify (sv : Server) (e : EngineError) : (sv.notify s e).ledger = sv.ledger := by
  have hlines := ledger_noteLines (s.handler.notice e).lines (sv.note (.noticed e))
  unfold notify
  dsimp only
  split <;> exact hlines

theorem ledger_acceptRound (sv : Server) (b : Backoff) : (sv.acceptRound b).ledger = sv.ledger := by
  unfold acceptRound
  split <;> rfl

theorem posts_letIn (ho : Books.Orderly sv.books) (peer : String) : Posts 0 sv (sv.letIn s peer) := by
  have hentered : ∀ entered : Server, entered.books = sv.books.enter (sv.nextLink s peer) →
      entered.metrics = sv.metrics.record .connectionEstablished → Posts 0 sv entered := by
    intro entered hbooks hmetrics
    have hlinks : entered.links = sv.links ++ [sv.nextLink s peer] := congrArg Books.links hbooks
    refine ⟨fun k => ⟨0, ?_, ?_⟩, 1, ?_, ?_⟩
    · rw [hlinks, summed_concat]
      exact congrArg _ k.read_zero
    · rw [hmetrics, k.read_record, k.share_zero]
      cases k <;> exact (UInt64.add_zero _).symm
    · rw [hlinks]
      exact List.length_append
    · rw [hmetrics]
      rfl
  have htended : (sv.nextLink s peer).Tended := Link.tended_new _ _
  have hletIn : ∀ entered : Server, entered.books = sv.books.enter (sv.nextLink s peer) →
      entered.metrics = sv.metrics.record .connectionEstablished →
      Posts 0 sv (if entered.cancelled then entered.closeLink sv.nextId else entered) := by
    intro entered hbooks hmetrics
    have hposts := hentered entered hbooks hmetrics
    split
    · have horderly : Books.Orderly entered.books :=
        ho.concat rfl htended (congrArg Books.links hbooks) (congrArg Books.nextId hbooks)
      exact hposts.trans (posts_closeLink horderly sv.nextId)
    · exact hposts
  exact hletIn _ rfl rfl

theorem posts_refuse (s : ServerSetup) (sv : Server) (peer : String) :
    Posts 0 sv (sv.refuse s peer) := by
  have hcounted : Posts 0 sv (sv.record .connectionRefused) :=
    .of_read rfl (fun k => by cases k <;> rfl) rfl
  have htold : (sv.refuse s peer).ledger = (sv.record .connectionRefused).ledger :=
    ledger_notify _ _
  exact hcounted.trans (.of_ledger_eq htold)

theorem posts_fail (s : ServerSetup) (sv : Server) (f : IoFailure) : Posts 0 sv (sv.fail s f) := by
  have hcounted : Posts 0 sv (sv.record .error) :=
    .of_read rfl (fun k => by cases k <;> rfl) rfl
  have htold : (sv.fail s f).ledger = (sv.record .error).ledger := ledger_notify _ _
  exact hcounted.trans (.of_ledger_eq htold)

/-- A failure to accept is the server's own, and so is the retry that it is granted. -/
theorem posts_acceptFailed (sv : Server) (f : IoFailure) (permit : Bool) (b : Backoff) :
    Posts (Backoff.grants (if f.kind.isAcceptRetryable then some b else none)) sv
      (sv.acceptFailed s f permit b) := by
  have hdown : Posts 0 sv ((sv.fail s f).exitAcceptor permit) :=
    (posts_fail s sv f).andThen rfl rfl
  unfold acceptFailed
  by_cases hretryable : f.kind.isAcceptRetryable = true
  · rw [if_pos hretryable, if_pos hretryable]
    unfold Backoff.grants
    dsimp only
    split <;> rename_i hnext <;> rw [hnext]
    · exact .of_retry rfl rfl
    · exact hdown
  · rw [if_neg hretryable, if_neg hretryable]
    exact hdown

theorem posts_accept (ho : Books.Orderly sv.books) {r : Except IoFailure String}
    (h : sv.accept s r = some sv') : Posts (Backoff.grants (sv.asks (.accept r))) sv sv' := by
  obtain ⟨permit, b, hwaits, -, rfl⟩ := exists_of_accept h
  unfold accepted
  cases r with
  | ok peer =>
    dsimp only
    split
    · exact (posts_letIn ho peer).trans (.of_ledger_eq (ledger_acceptRound _ _))
    · exact (posts_refuse s sv peer).andThen rfl rfl
  | error f =>
    simp only [asks, hwaits]
    exact posts_acceptFailed sv f permit b

theorem posts_acceptGo (h : sv.acceptGo s = some sv') : Posts 0 sv sv' := by
  unfold acceptGo at h
  split at h
  · cases h
    exact .of_ledger_eq (ledger_acceptRound sv _)
  · split at h <;> cases h
    exact .of_ledger_eq (ledger_acceptRound sv _)
  · cases h

theorem posts_acceptCancelled (h : sv.acceptCancelled = some sv') : Posts 0 sv sv' := by
  unfold acceptCancelled at h
  split at h
  · split at h <;> cases h <;> exact .of_ledger rfl rfl
  · cases h

theorem posts_acceptTimer (h : sv.acceptTimer = some sv') : Posts 0 sv sv' := by
  unfold acceptTimer at h
  split at h
  · split at h <;> cases h
    exact .of_ledger_eq (ledger_acceptRound sv _)
  · split at h <;> cases h
    exact .of_ledger_eq (ledger_acceptRound _ _)
  · cases h

/-! ## Stops, sends and clocks -/

theorem posts_start {address : String} (h : sv.start s address = .ok sv') : Posts 0 sv sv' := by
  unfold start at h
  split at h <;> cases h
  exact .of_ledger rfl rfl

theorem ledger_stop (sv : Server) : sv.stop.ledger = sv.ledger := by
  have hstop : ∀ told : Server, told.ledger = sv.ledger →
      (if told.joinable then
          { told with joinable := false, stops := told.stops ++ [StopCall.joining !sv.stopped] }
        else
          { told.drain with stops := told.stops ++ [StopCall.draining !sv.stopped] }).ledger =
        sv.ledger := by
    intro told htold
    split <;> exact htold
  unfold stop
  dsimp only
  refine hstop _ ?_
  split <;> rfl

theorem posts_stopGo {caller : Nat} (h : sv.stopGo caller = some sv') : Posts 0 sv sv' := by
  unfold stopGo at h
  split at h
  · split at h <;> cases h
    exact .of_ledger rfl rfl
  · rename_i first _
    split at h <;> cases h
    cases first <;> exact .of_ledger rfl rfl
  · cases h

theorem metrics_offer (registered : List Nat) (frame : Octets) (l : Link) :
    (offer registered frame l).connection.metrics = l.connection.metrics := by
  unfold offer
  split
  · cases h : l.connection.sendFrame frame with
    | error e => rfl
    | ok c =>
      obtain ⟨queue, -, rfl⟩ := Connection.sendFrame_eq_ok h
      rfl
  · rfl

theorem posts_broadcast {m : Message} {count : Nat} (h : sv.broadcast s m = .ok (count, sv')) :
    Posts 0 sv sv' := by
  obtain ⟨frame, lines, rfl⟩ := exists_of_broadcast h
  have hqueued : Posts 0 sv { sv with links := (deliver sv.registered frame sv.links).links } :=
    .of_map (links_deliver _ _ _) (fun l _ => metrics_offer _ _ l) (fun k => k.read_same _) rfl
  exact hqueued.trans (.of_ledger_eq (ledger_noteLines _ _))

/-! ## Steps -/

theorem posts_step (ho : Books.Orderly sv.books) {x : Label} (h : sv.step s x = some sv') :
    Posts (Backoff.grants (sv.asks x)) sv sv' := by
  cases x with
  | tick timers wall =>
    cases h
    exact .of_map rfl (fun _ _ => rfl) (fun k => k.read_same _) rfl
  | drawId => cases h; exact .of_ledger rfl rfl
  | start address => exact posts_start (start_of_step h)
  | stop => cases h; exact .of_ledger_eq (ledger_stop sv)
  | stopGo caller => exact posts_stopGo h
  | acceptGo => exact posts_acceptGo h
  | acceptCancelled => exact posts_acceptCancelled h
  | acceptTimer => exact posts_acceptTimer h
  | accept r => exact posts_accept ho h
  | begin id => exact posts_begin ho h
  | finish id => exact posts_finish ho h
  | closeGo id =>
    obtain ⟨-, rfl⟩ := due_of_closeGo h
    have hsame : Books.Orderly { sv with closing := sv.closing.erase id }.books :=
      ⟨ho.rising, ho.below, ho.tended⟩
    have hclose := posts_closeLink hsame id
    exact ⟨hclose.counters, hclose.admitted⟩
  | close id => exact posts_stepLink ho h
  | send id m => exact posts_stepLink ho h
  | broadcast m =>
    obtain ⟨count, hsent⟩ := broadcast_of_step h
    exact posts_broadcast hsent
  | startRequested id => exact posts_stepLink ho h
  | wake id task w => exact posts_stepLink ho h

theorem posts_steps {ls : List Label} (run : Steps s sv ls sv') :
    Books.Orderly sv.books → Posts (grants s sv ls) sv sv' := by
  induction run with
  | nil sv => exact fun _ => .refl sv
  | @cons a b _ x ls first _ ih =>
    intro ho
    have hrest := ih (ho.acts (acts_step ho first))
    rw [grants, first]
    exact (posts_step ho first).trans hrest

/-! ## The sums -/

/-- The list of the connections that were let in has all of them, in order. -/
theorem admissions_of_acts {b b' : Books} (h : Books.Acts b b')
    (hb : b.links.map Link.id = b.admissions.reverse) :
    b'.links.map Link.id = b'.admissions.reverse := by
  induction h with
  | refl => exact hb
  | @tail b₁ _ _ last ih =>
    cases last with
    | serves h => exact (Books.map_moves_id h).trans ih
    | closes _ h _ => exact (Books.map_moves_id h).trans ih
    | ends _ _ => exact (Books.map_endLink_id _ _).trans ih
    | @admits l _ next _ _ _ =>
      show (b₁.links ++ [l]).map Link.id = (b₁.nextId :: b₁.admissions).reverse
      rw [List.map_append, ih, List.reverse_cons, ← next]
      rfl
    | draws | opens _ | takes _ _ | yields _ | shuts _ | refuses _ _ | stops _ | drains _
    | joins _ _ | returns _ _ _ _ | collapses _ => exact ih

/-- The server's counters by those of all connections that it has let in, of closed ones too. -/
structure Totalled (s : ServerSetup) (ls : List Label) (sv : Server) : Prop where
  messagesSent : sv.metrics.messagesSent = .ofNat (summed Metrics.messagesSent sv.links)
  messagesReceived :
    sv.metrics.messagesReceived = .ofNat (summed Metrics.messagesReceived sv.links)
  bytesSent : sv.metrics.bytesSent = .ofNat (summed Metrics.bytesSent sv.links)
  bytesReceived : sv.metrics.bytesReceived = .ofNat (summed Metrics.bytesReceived sv.links)
  protocolErrors : sv.metrics.protocolErrors = .ofNat (summed Metrics.protocolErrors sv.links)
  bufferOverflows : sv.metrics.bufferOverflows = .ofNat (summed Metrics.bufferOverflows sv.links)
  idleTimeouts : sv.metrics.idleTimeouts = .ofNat (summed Metrics.idleTimeouts sv.links)
  retries : sv.metrics.retries =
    .ofNat (summed Metrics.retries sv.links + grants s (new s) ls)
  connectionsTotal : sv.metrics.connectionsTotal = .ofNat sv.admissions.length
  everyone : sv.links.map Link.id = sv.admissions.reverse

theorem totals_of_links {ls : List Label} (run : Steps s (new s) ls sv) : Totalled s ls sv := by
  have hposts := posts_steps run (orderly_new s)
  have hread : ∀ k : Counter, k.read sv.metrics =
      .ofNat (summed k.read sv.links + k.share (grants s (new s) ls)) := by
    intro k
    obtain ⟨d, hlinks, hmetrics⟩ := hposts.counters k
    have hnone : UInt64.ofNat (summed k.read (new s).links) = 0 := rfl
    have hzero : k.read (new s).metrics = 0 := k.read_zero
    rw [hmetrics, hzero, UInt64.ofNat_add, hlinks, hnone]
  have heveryone : sv.links.map Link.id = sv.admissions.reverse :=
    admissions_of_acts (acts_of_steps run (orderly_new s)).2 rfl
  obtain ⟨more, hlength, htotal⟩ := hposts.admitted
  have hadmitted : more = sv.admissions.length := by
    have hsame := congrArg List.length heveryone
    rw [List.length_map, List.length_reverse, hlength] at hsame
    exact (Nat.zero_add more).symm.trans hsame
  refine ⟨hread .messagesSent, hread .messagesReceived, hread .bytesSent, hread .bytesReceived,
    hread .protocolErrors, hread .bufferOverflows, hread .idleTimeouts, hread .retries, ?_,
    heveryone⟩
  rw [htotal, hadmitted]
  exact UInt64.zero_add _

/-- Accepting fails once, and so does a read of the first connection. It brings a message and octets
that are no frame, and is closed; the second brings a message and takes one. -/
theorem totals_of_links_of_two :
    let s : ServerSetup :=
      { settings := ServerSettings.standard
        connection := { ConnectionSettings.standard with rateLimit := .zero false }
        framing := .field 64
        handler := .quiet
        chance := fun _ delay => delay }
    let d : Octets := [0, 0, 0, 16, 0, 0, 0, 1, 0, 0, 0, 1, 0, 0, 0, 0]
    let ls : List Label :=
      [.start "127.0.0.1:9000", .acceptGo, .accept (.ok "127.0.0.1:5001"),
        .accept (.error (.ofKind .interrupted)), .begin 1, .wake 1 .reader .go,
        .wake 1 .writer .go, .wake 1 .idler .go,
        .wake 1 .reader (.read (.error (.ofKind .interrupted))), .tick (.ofMillis 1000) 0,
        .acceptTimer, .accept (.ok "127.0.0.1:5002"), .begin 2, .wake 2 .reader .go,
        .wake 2 .writer .go, .wake 1 .reader .timer,
        .wake 1 .reader (.read (.ok (d ++ List.replicate 16 255))),
        .wake 2 .reader (.read (.ok d)), .close 1, .wake 1 .reader .cancelled,
        .wake 1 .writer .cancelled, .wake 1 .idler .cancelled, .wake 1 .runner .go, .finish 1,
        .send 2 (.field ⟨1, 1, []⟩), .wake 2 .writer .go, .wake 2 .writer (.write (.ok 16)),
        .wake 2 .writer (.flush (.ok ()))]
    ∃ sv, Steps s (new s) ls sv ∧ Totalled s ls sv ∧
      sv.links.map (fun l => (l.ended, l.connection.metrics.bytesReceived)) =
        [(true, 32), (false, 16)] ∧
      sv.metrics = { Metrics.zero with
        connectionsTotal := 2, connectionsActive := 1, messagesReceived := 2, bytesReceived := 48,
        messagesSent := 1, bytesSent := 16, errors := 2, protocolErrors := 1, retries := 2 } := by
  intro s d ls
  have hseen : (follow s (new s) ls).map (fun sv =>
      (sv.links.map (fun l => (l.ended, l.connection.metrics.bytesReceived)), sv.metrics)) =
      some ([(true, 32), (false, 16)], { Metrics.zero with
        connectionsTotal := 2, connectionsActive := 1, messagesReceived := 2, bytesReceived := 48,
        messagesSent := 1, bytesSent := 16, errors := 2, protocolErrors := 1, retries := 2 }) := by
    decide +kernel
  obtain ⟨sv, hrun, hsv⟩ := Option.map_eq_some_iff.1 hseen
  obtain ⟨hlinks, hmetrics⟩ := Prod.mk.inj hsv
  have hsteps := steps_of_follow hrun
  exact ⟨sv, hsteps, totals_of_links hsteps, hlinks, hmetrics⟩

end Server
end FrameEngine
