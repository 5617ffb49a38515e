import FrameEngine.Proofs.Client.Steps
import FrameEngine.Proofs.Connection.Wire
import FrameEngine.Proofs.Net.Link

/-!
# FrameEngine.Proofs.Client.Links

What a client does with its connections is what anyone can do with a connection. `follows_of_step`
says so of a step of the client: each connection is new, or makes at most one step of its own, and
`Label.Reaches` says which. So each has come to where it is by steps of its own (`driven_of_steps`),
and what holds of every run of a connection holds of the connections of a client.

`wire_of_link` is that for the streams: what a client writes, by its queues and past them.
-/

namespace FrameEngine

theorem Connection.Steps.concat {s : Setup} {a b c : Connection} {ls : List Label} {l : Label}
    (run : Steps s a ls b) (step : b.step s l = some c) : Steps s a (ls ++ [l]) c := by
  induction run with
  | nil c => exact .cons step (.nil _)
  | cons first _ ih => exact .cons first (ih step)

theorem Connection.step_send {s : Setup} {c c' : Connection} {m : Message}
    (sent : c.send s m = .ok c') : c.step s (.send m) = some c' := by
  rw [step, sent]
  rfl

/-- No counters are lent to a connection by its own steps. -/
theorem Connection.totals_of_steps {s : Setup} {c : Connection} {ls : List Label}
    (run : Steps s (new s) ls c) : c.totals = none := by
  obtain ⟨_, hstretch⟩ := stretch_of_run false run nofun
  exact Option.isNone_iff_eq_none.1 (Option.isSome_eq_false_iff.1 hstretch.totals)

namespace Link

/-- The connection has come to where it is by these steps of its own. -/
def Grown (l : Link) (cs : List Label) : Prop :=
  Connection.Steps l.setup (.new l.setup) cs l.connection

/-- What becomes of a link in a step of its client: its connection makes a step, or none, and its
task goes on. -/
inductive Goes (l : Link) : Option Label → Link → Prop where
  | stays {due : Option LoopSet} {ended : Bool} : Goes l none { l with due, ended }
  | steps {x : Label} {c : Connection} {due : Option LoopSet} {ended : Bool}
      (h : l.connection.step l.setup x = some c) :
      Goes l (some x) { l with connection := c, due, ended }

variable {l l' : Link} {cs : List Label} {y : Option Label}

theorem Goes.setup_eq (h : l.Goes y l') : l'.setup = l.setup := by cases h <;> rfl

theorem Goes.id_eq (h : l.Goes y l') : l'.id = l.id := congrArg Setup.id h.setup_eq

theorem Grown.goes (h : l.Grown cs) (hgoes : l.Goes y l') : l'.Grown (cs ++ y.toList) := by
  cases hgoes with
  | stays => exact (List.append_nil cs).symm ▸ h
  | steps hstep => exact h.concat hstep

/-- A step of the link is one of its connection, since nothing is lent to it before or after. -/
theorem Grown.step_eq {totals : Option Metrics} {x : Label} (h : l.Grown cs)
    (hstep : l.step none x = some (l', totals)) :
    ∃ c, l.connection.step l.setup x = some c ∧ l' = { l with connection := c } := by
  have hown : { l.connection with totals := none } = l.connection := by
    rw [← Connection.totals_of_steps h]
  obtain ⟨c, hc, rfl, -⟩ := exists_of_step hstep
  rw [hown] at hc
  have hnone : c.totals = none := Connection.totals_of_steps (h.concat hc)
  have hsame : { c with totals := none } = c := by rw [← hnone]
  rw [hsame]
  exact ⟨c, hc, rfl⟩

theorem Grown.goes_step {totals : Option Metrics} {x : Label} (h : l.Grown cs)
    (hstep : l.step none x = some (l', totals)) : l.Goes (some x) l' := by
  obtain ⟨c, hc, rfl⟩ := h.step_eq hstep
  exact .steps hc

theorem Grown.goes_begin {totals : Option Metrics} (h : l.Grown cs)
    (hbegin : l.begin? none = some (l', totals)) : ∃ loops, l.Goes (some (.start loops)) l' := by
  obtain ⟨loops, -, hstep⟩ := exists_of_begin hbegin
  have hdue : Grown { l with due := none } cs := h
  refine ⟨loops, ?_⟩
  cases hdue.goes_step hstep with
  | steps hc => exact .steps hc

end Link

namespace Client

variable {s : ClientSetup} {cl cl' : Client} {x : Label}

/-- How a step drives on a task of the connection with a number. -/
def Label.wake? (id : Nat) : Label → Option FrameEngine.Label
  | .wake i task w => if i = id then some (.wake task w) else none
  | _ => none

/-- What a step of a client can be to the connection with a number. -/
inductive Label.Reaches (f : Framing) (id : Nat) : Label → Option FrameEngine.Label → Prop where
  | tick {timers wall : Span} : Reaches f id (.tick timers wall) (some (.tick timers wall))
  | begin {loops : LoopSet} : Reaches f id (.begin id) (some (.start loops))
  | close : Reaches f id .close (some .close)
  | send {m : Message} : Reaches f id (.send m) (some (.send m))
  | sendDirect {m : Message} {frame : Octets} (packed : f.pack m = .ok frame) :
      Reaches f id (.sendDirect m) (some (.sendDirect frame))
  | receiveDirect : Reaches f id .receiveDirect (some .receiveDirect)
  | startRequested : Reaches f id (.startRequested id) (some .startRequested)
  | wake {task : Task} {w : Wake} : Reaches f id (.wake id task w) (some (.wake task w))
  /-- None of its tasks goes on. -/
  | none {x : Label} (other : x.wake? id = none) : Reaches f id x none

theorem Label.Reaches.packed {f : Framing} {id : Nat} {y : FrameEngine.Label}
    (h : x.Reaches f id (some y)) {setup : Setup} (hf : setup.framing = f) : y.Packed setup := by
  cases h with
  | sendDirect packed => exact ⟨_, hf ▸ packed⟩
  | _ => trivial

/-- What a step does to the connections of a client: each that is there afterwards is new, and has
the next number, or was there and has made at most one step of its own. -/
structure Follows (s : ClientSetup) (x : Label) (cl cl' : Client) : Prop where
  numbers : cl.nextId ≤ cl'.nextId
  links : ∀ k ∈ cl'.links,
    (∃ loops socket, k = Link.new (cl.linkSetup s socket) loops ∧ cl.nextId < cl'.nextId) ∨
      ∃ l ∈ cl.links, ∃ y, x.Reaches s.framing l.id y ∧ l.Goes y k

/-- All connections of a client have come to where they are by steps of their own. -/
def Grown (cl : Client) : Prop := ∀ l ∈ cl.links, ∃ cs, l.Grown cs

theorem Follows.same (hn : cl.nextId ≤ cl'.nextId) (hl : cl'.links = cl.links)
    (other : ∀ id, x.wake? id = none) : Follows s x cl cl' :=
  ⟨hn, fun k hk => .inr ⟨k, hl ▸ hk, none, .none (other k.id), .stays⟩⟩

/-- One connection goes on, and the others stay. -/
theorem follows_put {l l' : Link} {y : Option FrameEngine.Label} (h : l ∈ cl.links)
    (hy : x.Reaches s.framing l.id y) (hgoes : l.Goes y l')
    (other : ∀ id, id ≠ l.id → x.wake? id = none) :
    Follows s x cl { cl with links := l'.put cl.links } := by
  refine ⟨Nat.le_refl _, fun k hk => ?_⟩
  rcases Link.mem_put hk with rfl | ⟨hmem, hne⟩
  · exact .inr ⟨l, h, y, hy, hgoes⟩
  · rw [hgoes.id_eq] at hne
    exact .inr ⟨k, hmem, none, .none (other k.id hne), .stays⟩

theorem follows_went {l l' : Link} {id : Nat} {y : FrameEngine.Label} {totals : Option Metrics}
    (h : Grown cl) (hy : x.Reaches s.framing id (some y))
    (other : ∀ k, k ≠ id → x.wake? k = none) (found : Link.find? cl.links id = some l)
    (went : l.step none y = some (l', totals)) : Follows s x cl (cl.update l') := by
  obtain ⟨hmem, rfl⟩ := Link.mem_of_find? found
  obtain ⟨cs, hcs⟩ := h l hmem
  exact follows_put hmem hy (hcs.goes_step went) other

theorem follows_afterAttempt (caller : Nat) (loops : LoopSet) (d : Dialer) (a : Attempt)
    (socket : Socket) (other : ∀ id, x.wake? id = none) :
    Follows s x cl (cl.afterAttempt s caller loops d a socket) := by
  unfold afterAttempt
  split
  · split
    · exact .same (Nat.le_refl _) rfl other
    · refine ⟨Nat.le_succ _, fun k hk => ?_⟩
      rcases List.mem_append.1 hk with hk | hk
      · exact .inr ⟨k, hk, none, .none (other k.id), .stays⟩
      · exact .inl ⟨loops, socket, List.mem_singleton.1 hk, Nat.lt_succ_self _⟩
  · exact .same (Nat.le_refl _) rfl other
  · exact .same (Nat.le_refl _) rfl other

theorem live_mem {l : Link} (h : cl.live? = some l) : l ∈ cl.links := by
  unfold live? at h
  split at h
  · rename_i k hk
    split at h
    · cases h
    · cases h
      unfold link? at hk
      split at hk
      · exact List.mem_of_find?_eq_some hk
      · cases hk
  · cases h

theorem follows_close (h : Grown cl) : Follows s .close cl cl.close := by
  unfold close
  split
  · exact .same (Nat.le_refl _) rfl fun _ => rfl
  · rename_i id _
    have hclosed : Follows s .close cl ((Client.stepLink { cl with slot := none } id .close).getD
        { cl with slot := none }) := by
      cases hc : Client.stepLink { cl with slot := none } id .close with
      | none => exact .same (Nat.le_refl _) rfl fun _ => rfl
      | some cl₁ =>
        have hslot : Grown { cl with slot := none } := h
        obtain ⟨l, l', totals, hfound, hwent, rfl⟩ := exists_of_stepLink hc
        have hfollows := follows_went (s := s) hslot .close (fun _ _ => rfl) hfound hwent
        exact ⟨hfollows.numbers, hfollows.links⟩
    dsimp only
    split <;> exact ⟨hclosed.numbers, hclosed.links⟩

theorem follows_of_step (h : Grown cl) (hstep : cl.step s x = some cl') :
    Follows s x cl cl' := by
  cases step_of hstep with
  | ticks timers wall =>
    refine ⟨Nat.le_refl _, fun l hl => ?_⟩
    obtain ⟨k, hk, rfl⟩ := List.mem_map.1 hl
    obtain ⟨cs, hcs⟩ := h k hk
    cases hs : k.step none (.tick timers wall) with
    | none => exact .inr ⟨k, hk, none, .none rfl, .stays⟩
    | some p => exact .inr ⟨k, hk, _, .tick, hcs.goes_step hs⟩
  | draws => exact .same (Nat.le_succ _) rfl fun _ => rfl
  | asks loops => exact .same (Nat.le_refl _) rfl fun _ => rfl
  | connects dialing => exact follows_afterAttempt _ _ _ _ _ fun _ => rfl
  | fails dialing => exact follows_afterAttempt _ _ _ _ _ fun _ => rfl
  | expires dialing due => exact follows_afterAttempt _ _ _ _ _ fun _ => rfl
  | resumes pausing due => exact .same (Nat.le_refl _) rfl fun _ => rfl
  | begins found begun =>
    obtain ⟨hmem, rfl⟩ := Link.mem_of_find? found
    obtain ⟨cs, hcs⟩ := h _ hmem
    obtain ⟨loops, hgoes⟩ := hcs.goes_begin begun
    exact follows_put hmem .begin hgoes fun _ _ => rfl
  | finishes found ready =>
    exact follows_put (Link.mem_of_find? found).1 (.none rfl) .stays fun _ _ => rfl
  | closes => exact follows_close h
  | returns joining found ended => exact .same (Nat.le_refl _) rfl fun _ => rfl
  | sends live sent =>
    exact follows_put (live_mem live) .send (.steps (Connection.step_send sent)) fun _ _ => rfl
  | sendsDirect live packed =>
    exact follows_put (live_mem live) (.sendDirect packed) (.steps rfl) fun _ _ => rfl
  | receives live => exact follows_put (live_mem live) .receiveDirect (.steps rfl) fun _ _ => rfl
  | refuses use =>
    refine .same (Nat.le_refl _) rfl fun _ => ?_
    rcases use with rfl | ⟨m, rfl | rfl⟩ <;> rfl
  | starts found went => exact follows_went h .startRequested (fun _ _ => rfl) found went
  | goes found went =>
    exact follows_went h .wake (fun k hne => if_neg fun heq => hne heq.symm) found went

end Client

/-! ## Connections that are driven -/

/-- The connection is what its own steps have made of it, and all frames that came with them were
packed. -/
structure Link.Driven (f : Framing) (l : Link) : Prop where
  framing : l.setup.framing = f
  run : ∃ cs, Connection.Steps l.setup (.new l.setup) cs l.connection ∧
    ∀ x ∈ cs, x.Packed l.setup

namespace Link

variable {f : Framing} {l l' : Link}

theorem driven_new {s : Setup} (loops : LoopSet) : (new s loops).Driven s.framing :=
  ⟨rfl, [], .nil _, nofun⟩

theorem Driven.goes {y : Option Label} (h : l.Driven f) (hgoes : l.Goes y l')
    (hy : ∀ z, y = some z → z.Packed l.setup) : l'.Driven f := by
  obtain ⟨cs, run, hcs⟩ := h.run
  have hgrown : l.Grown cs := run
  have hsetup := hgoes.setup_eq
  refine ⟨hsetup ▸ h.framing, cs ++ y.toList, hgrown.goes hgoes, fun z hz => ?_⟩
  rw [hsetup]
  rcases List.mem_append.1 hz with hz | hz
  · exact hcs z hz
  · exact hy z (Option.mem_toList.1 hz)

theorem driven_find {links : List Link} {id : Nat} (hall : ∀ k ∈ links, k.Driven f)
    (h : find? links id = some l) : l.Driven f :=
  hall l (List.mem_of_find?_eq_some h)

end Link

namespace Client

variable {s : ClientSetup} {cl cl' : Client}

/-- All connections of a client are driven. -/
def Driven (s : ClientSetup) (cl : Client) : Prop := ∀ l ∈ cl.links, l.Driven s.framing

theorem Driven.grown (h : Driven s cl) : Grown cl := by
  intro l hl
  obtain ⟨cs, run, _⟩ := (h l hl).run
  exact ⟨cs, run⟩

theorem driven_new (s : ClientSetup) : Driven s new := fun _ hl => absurd hl List.not_mem_nil

theorem driven_step {x : Label} (h : Driven s cl) (hstep : cl.step s x = some cl') :
    Driven s cl' := by
  intro k hk
  have hfollows := follows_of_step h.grown hstep
  rcases hfollows.links k hk with ⟨loops, socket, rfl, _⟩ | ⟨l, hl, y, hy, hgoes⟩
  · exact Link.driven_new (s := cl.linkSetup s socket) loops
  · refine (h l hl).goes hgoes fun z hz => ?_
    rw [hz] at hy
    exact hy.packed (h l hl).framing

theorem driven_of_steps {ls : List Label} (run : Steps s cl ls cl') (h : Driven s cl) :
    Driven s cl' := by
  induction run with
  | nil cl => exact h
  | cons first _ ih => exact ih (driven_step h first)

/-- The client after a list of labels, if each is possible when it comes. -/
def follow (s : ClientSetup) : Client → List Label → Option Client
  | cl, [] => some cl
  | cl, l :: ls => (cl.step s l).bind fun cl => follow s cl ls

theorem steps_of_follow {ls : List Label} (h : follow s cl ls = some cl') : Steps s cl ls cl' := by
  induction ls generalizing cl with
  | nil => cases h; exact .nil _
  | cons l ls ih =>
    obtain ⟨cl₁, first, rest⟩ := Option.bind_eq_some_iff.1 h
    exact .cons first (ih rest)

/-! ## Streams -/

/-- What the streams of a client get: frames, whole, as long as each write that fails half way is
one with which the write half goes. -/
theorem wire_of_link {ls : List Label} (run : Steps s new ls cl) {l : Link} (hl : l ∈ cl.links) :
    l.setup.framing = s.framing ∧ ∃ cs, Connection.Steps l.setup (.new l.setup) cs l.connection ∧
      (∀ x ∈ cs, x.Packed l.setup) ∧ Connection.Wire l.setup cs l.connection := by
  obtain ⟨hframing, cs, hsteps, hcs⟩ := driven_of_steps run (driven_new s) l hl
  exact ⟨hframing, cs, hsteps, hcs, Connection.wire_of_steps hsteps hcs⟩

/-- A message is queued behind one that is sent past the queue; the second is written, and the write
loop fails after three octets of the first. -/
theorem wire_of_link_of_broken_pipe :
    let s : ClientSetup :=
      { settings := .standard
        connection := { ConnectionSettings.standard with rateLimit := .zero false }
        framing := .field 64
        handler := .quiet
        chance := fun _ delay => delay }
    let ls : List Label :=
      [.connect .writeOnly, .dialed 0 (.ok ⟨none, none⟩), .begin 1, .send (.field ⟨1, 1, []⟩),
        .sendDirect (.field ⟨1, 2, []⟩), .wake 1 .writer .go, .wake 1 .writer .go,
        .wake 1 (.direct 0) (.write (.ok 16)), .wake 1 (.direct 0) (.flush (.ok ())),
        .wake 1 .writer .go, .wake 1 .writer (.write (.ok 3)),
        .wake 1 .writer (.write (.error (.ofKind .brokenPipe)))]
    ∃ cl l, Steps s new ls cl ∧ l ∈ cl.links ∧
      l.connection.written = [0, 0, 0, 16, 0, 0, 0, 1, 0, 0, 0, 2, 0, 0, 0, 0, 0, 0, 0] ∧
      l.setup.framing = s.framing ∧ ∃ cs, Connection.Steps l.setup (.new l.setup) cs l.connection ∧
        (∀ x ∈ cs, x.Packed l.setup) ∧ Connection.Wire l.setup cs l.connection := by
  intro s ls
  have hseen : ((follow s new ls).bind fun cl => cl.links.head?.map fun l =>
      l.connection.written) =
      some [0, 0, 0, 16, 0, 0, 0, 1, 0, 0, 0, 2, 0, 0, 0, 0, 0, 0, 0] := by
    decide +kernel
  obtain ⟨cl, hrun, hl⟩ := Option.bind_eq_some_iff.1 hseen
  obtain ⟨l, hhead, hwritten⟩ := Option.map_eq_some_iff.1 hl
  have hsteps := steps_of_follow hrun
  have hmem := List.mem_of_mem_head? (Option.mem_def.2 hhead)
  exact ⟨cl, l, hsteps, hmem, hwritten, wire_of_link hsteps hmem⟩

/-- No frame begins with a word that is naught, so what begins with one is not made of frames. -/
theorem not_frames_of_zero {s : Setup} {max : Nat} (hf : s.framing = .field max) {buf rest : Octets}
    (hz : Octets.word? buf = some (0, rest)) :
    ¬ ∃ (frames : List Octets) (part : Octets), buf = frames.flatten ++ part ∧
      (∀ frame ∈ frames, s.Packs frame) ∧ Connection.Unfinished s part := by
  have hword : ∀ frame tail more, s.Packs frame →
      Octets.word? (frame ++ tail) ≠ some (0, more) := by
    rintro frame tail more ⟨m, hp⟩ hw
    rw [hf] at hp
    cases m with
    | field m =>
      obtain ⟨rfl, _, hlt⟩ := Framing.Field.pack_eq_ok_iff.1 hp
      rw [Framing.Field.frame, List.append_assoc, Octets.word?_ofWord] at hw
      have hzero := congrArg UInt32.toNat (Prod.mk.inj (Option.some.inj hw)).1
      rw [Framing.toNat_ofNat_word hlt] at hzero
      exact absurd (Nat.add_eq_zero_iff.1 hzero).1 (by decide)
    | json m => cases hp
    | binary m => cases hp
  rintro ⟨frames, part, rfl, hpacks, hpart⟩
  cases frames with
  | nil =>
    rcases hpart with rfl | ⟨frame, hp, ⟨t, rfl⟩, _⟩
    · cases hz
    · refine hword (part ++ t) [] (rest ++ t) hp (Octets.word?_eq_some_iff.2 ?_)
      rw [← List.append_assoc, ← Octets.word?_eq_some_iff.1 hz, List.append_nil]
      rfl
  | cons frame frames =>
    refine hword frame (frames.flatten ++ part) rest (hpacks frame List.mem_cons_self) ?_
    rw [← hz, List.flatten_cons, List.append_assoc]

/-- A direct send gives up after three octets of its frame, for time; the connection stays open, and
the next one puts its frame behind them. -/
theorem torn_send_is_followed :
    let s : ClientSetup :=
      { settings := .standard
        connection :=
          { ConnectionSettings.standard with
            rateLimit := .zero false
            retry := { RetryPolicy.standard with maxRetries := 0 } }
        framing := .field 64
        handler := .quiet
        chance := fun _ delay => delay }
    let before : List Label :=
      [.connect .writeOnly, .dialed 0 (.ok ⟨none, none⟩), .begin 1, .sendDirect (.field ⟨1, 1, []⟩),
        .wake 1 (.direct 0) (.write (.ok 3)), .tick (.ofMillis 10000) (.ofMillis 10000)]
    let after : List Label :=
      [.sendDirect (.field ⟨1, 2, []⟩), .wake 1 (.direct 1) (.write (.ok 16)),
        .wake 1 (.direct 1) (.flush (.ok ()))]
    ∃ a b c k l m job, Steps s new before a ∧ a.step s (.wake 1 (.direct 0) .timer) = some b ∧
      Steps s b after c ∧ Link.find? a.links 1 = some k ∧ Link.find? b.links 1 = some l ∧
      Link.find? c.links 1 = some m ∧
      Writers.Tears k.connection.writers l.connection.writers (.direct 0) job ∧
      m.connection.isClosed = false ∧ m.connection.written =
        l.connection.written ++ [0, 0, 0, 16, 0, 0, 0, 1, 0, 0, 0, 2, 0, 0, 0, 0] ∧
      ¬ ∃ (frames : List Octets) (part : Octets), m.connection.written = frames.flatten ++ part ∧
        (∀ frame ∈ frames, m.setup.Packs frame) ∧ Connection.Unfinished m.setup part := by
  intro s before after
  have hseen : ((follow s new before).bind fun a =>
      (a.step s (.wake 1 (.direct 0) .timer)).bind fun b => (follow s b after).bind fun c =>
      (Link.find? a.links 1).bind fun k => (Link.find? b.links 1).bind fun l =>
      (Link.find? c.links 1).map fun m =>
        ((k.connection.job? (.direct 0)).map fun job => (job.written, job.frame.length),
          (l.connection.job? (.direct 0)).isNone, m.connection.isClosed, l.connection.written,
          m.connection.written)) =
      some (some (3, 16), true, false, [0, 0, 0],
        [0, 0, 0, 0, 0, 0, 16, 0, 0, 0, 1, 0, 0, 0, 2, 0, 0, 0, 0]) := by
    decide +kernel
  obtain ⟨a, ha, hseen⟩ := Option.bind_eq_some_iff.1 hseen
  obtain ⟨b, hb, hseen⟩ := Option.bind_eq_some_iff.1 hseen
  obtain ⟨c, hc, hseen⟩ := Option.bind_eq_some_iff.1 hseen
  obtain ⟨k, hk, hseen⟩ := Option.bind_eq_some_iff.1 hseen
  obtain ⟨l, hl, hseen⟩ := Option.bind_eq_some_iff.1 hseen
  obtain ⟨m, hm, hseen⟩ := Option.map_eq_some_iff.1 hseen
  simp only [Prod.mk.injEq] at hseen
  obtain ⟨hjob, hover, hopen, hput, hall⟩ := hseen
  obtain ⟨job, hjob, hplace⟩ := Option.map_eq_some_iff.1 hjob
  obtain ⟨hwritten, hlen⟩ := Prod.mk.inj hplace
  have htears : Writers.Tears k.connection.writers l.connection.writers (.direct 0) job :=
    ⟨hjob, by omega, by omega, Option.isNone_iff_eq_none.1 hover⟩
  have hbehind : m.connection.written =
      l.connection.written ++ [0, 0, 0, 16, 0, 0, 0, 1, 0, 0, 0, 2, 0, 0, 0, 0] := by
    rw [hall, hput]; rfl
  have hframing : m.setup.framing = .field 64 := by
    have ha' := driven_of_steps (steps_of_follow ha) (driven_new s)
    have hc' := driven_of_steps (steps_of_follow hc) (driven_step ha' hb)
    exact (Link.driven_find hc' hm).framing
  have hz : Octets.word? m.connection.written =
      some (0, [0, 0, 16, 0, 0, 0, 1, 0, 0, 0, 2, 0, 0, 0, 0]) := by
    rw [hall]; rfl
  exact ⟨a, b, c, k, l, m, job, steps_of_follow ha, hb, steps_of_follow hc, hk, hl, hm, htears,
    hopen, hbehind, not_frames_of_zero hframing hz⟩

end Client
end FrameEngine
