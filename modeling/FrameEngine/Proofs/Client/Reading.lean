import FrameEngine.Proofs.Client.Links
import FrameEngine.Proofs.Connection.Handover

/-!
# FrameEngine.Proofs.Client.Reading

What callers of a client read off a stream, and what its handler hears of it.

A connection reads when its tasks are driven on, so the reads of a connection are in the client's
own run, under its number (`wakes`). `told_of_steps` ties the two together, and `handover_of_link`
says of each connection of a client what comes of a stream of frames, when callers read the first of
them and the read loop the others.

A frame of which a caller has read the beginning only is lost to both
(`frame_lost_between_readers`).
-/

namespace FrameEngine

open Framing (Segment)

/-- A task goes on. -/
def Label.isWake : Label → Bool
  | .wake _ _ => true
  | _ => false

/-- Only tasks that go on read. -/
theorem flatMap_isWake {α : Type} {f : Label → List α} (h : ∀ x, x.isWake = false → f x = [])
    (cs : List Label) : (cs.filter Label.isWake).flatMap f = cs.flatMap f := by
  induction cs with
  | nil => rfl
  | cons x cs ih =>
    cases hx : x.isWake with
    | true => rw [List.filter_cons_of_pos hx, List.flatMap_cons, List.flatMap_cons, ih]
    | false =>
      have hpass : ¬ x.isWake = true := by rw [hx]; nofun
      rw [List.filter_cons_of_neg hpass, List.flatMap_cons, h x hx, List.nil_append, ih]

namespace Connection

variable {s : Setup} {c : Connection} {frames : List Octets} {cs : List Label}
  {results : List (Except EngineError Message)}

theorem directReads_eq_nil {x : Label} (h : x.isWake = false) : x.directReads = [] := by
  cases x <;> first | rfl | cases h

theorem loopReads_eq_nil {x : Label} (h : x.isWake = false) : x.loopReads = [] := by
  cases x <;> first | rfl | cases h

theorem reads_eq_nil {x : Label} (h : x.isWake = false) : x.directReads ++ x.loopReads = [] := by
  rw [directReads_eq_nil h, loopReads_eq_nil h]
  rfl

theorem Handover.wakes (h : Handover s frames results cs c) :
    Handover s frames results (cs.filter Label.isWake) c := by
  have hdirect := flatMap_isWake (fun _ => directReads_eq_nil) cs
  have hloop := flatMap_isWake (fun _ => loopReads_eq_nil) cs
  have hreads := flatMap_isWake (fun _ => reads_eq_nil) cs
  obtain ⟨order, answered, heard, whole, simple⟩ := h
  constructor
  · rw [hreads, hdirect, hloop]; exact order
  · rw [hdirect]; exact answered
  · rw [hloop]; exact heard
  · rw [hloop]; exact whole
  · rw [hloop]; exact simple

end Connection

namespace Client

variable {s : ClientSetup} {cl cl' : Client}

/-- How the tasks of the connection with a number are driven on in a run. -/
def wakes (id : Nat) (ls : List Label) : List FrameEngine.Label := ls.filterMap (Label.wake? id)

theorem wakes_concat (id : Nat) (past : List Label) (x : Label) :
    wakes id (past ++ [x]) = wakes id past ++ (x.wake? id).toList := by
  rw [wakes, List.filterMap_append]
  cases h : x.wake? id with
  | none => rw [List.filterMap_cons_none h]; rfl
  | some y => rw [List.filterMap_cons_some h]; rfl

theorem Label.Reaches.wake?_eq {f : Framing} {id : Nat} {x : Label}
    {y : Option FrameEngine.Label} (h : x.Reaches f id y) :
    y.toList.filter FrameEngine.Label.isWake = (x.wake? id).toList := by
  cases h with
  | wake => rw [Label.wake?, if_pos rfl]; rfl
  | none other => rw [other]; rfl
  | _ => rfl

/-- What a client has come to, told by what its run was to each connection. -/
structure Told (s : ClientSetup) (past : List Label) (cl : Client) : Prop where
  numbered : ∀ l ∈ cl.links, l.id < cl.nextId
  fresh : ∀ id, cl.nextId ≤ id → wakes id past = []
  links : ∀ l ∈ cl.links, l.setup.framing = s.framing ∧
    ∃ cs, l.Grown cs ∧ cs.filter FrameEngine.Label.isWake = wakes l.id past

theorem told_new (s : ClientSetup) : Told s [] new :=
  ⟨fun _ hl => absurd hl List.not_mem_nil, fun _ _ => rfl,
    fun _ hl => absurd hl List.not_mem_nil⟩

theorem Told.grown {past : List Label} (h : Told s past cl) : Grown cl := by
  intro l hl
  obtain ⟨_, cs, hcs, _⟩ := h.links l hl
  exact ⟨cs, hcs⟩

/-- Only a connection that is there has tasks. -/
theorem wake?_eq_none {past : List Label} {x : Label} {id : Nat} (h : Told s past cl)
    (hstep : cl.step s x = some cl') (hid : cl.nextId ≤ id) : x.wake? id = none := by
  cases step_of hstep with
  | @goes i task w l l' totals found went =>
    obtain ⟨hmem, hl⟩ := Link.mem_of_find? found
    have hlt := h.numbered l hmem
    exact if_neg fun hi => by omega
  | refuses use => rcases use with rfl | ⟨m, rfl | rfl⟩ <;> rfl
  | _ => rfl

theorem told_step {past : List Label} {x : Label} (h : Told s past cl)
    (hstep : cl.step s x = some cl') : Told s (past ++ [x]) cl' := by
  have hfollows := follows_of_step h.grown hstep
  -- a number that is not given yet has no tasks, so a new connection begins with no reads
  have hfresh : ∀ id, cl.nextId ≤ id → wakes id (past ++ [x]) = [] := by
    intro id hid
    rw [wakes_concat, h.fresh id hid, wake?_eq_none h hstep hid]
    rfl
  refine ⟨fun k hk => ?_, fun id hid => hfresh id (Nat.le_trans hfollows.numbers hid),
    fun k hk => ?_⟩
  · rcases hfollows.links k hk with ⟨loops, socket, rfl, hlt⟩ | ⟨l, hl, y, _, hgoes⟩
    · exact hlt
    · rw [hgoes.id_eq]
      exact Nat.lt_of_lt_of_le (h.numbered l hl) hfollows.numbers
  · rcases hfollows.links k hk with ⟨loops, socket, rfl, _⟩ | ⟨l, hl, y, hy, hgoes⟩
    · exact ⟨rfl, [], .nil _, (hfresh cl.nextId (Nat.le_refl _)).symm⟩
    · obtain ⟨hframing, cs, hcs, hwakes⟩ := h.links l hl
      refine ⟨hgoes.setup_eq ▸ hframing, cs ++ y.toList, hcs.goes hgoes, ?_⟩
      rw [List.filter_append, hwakes, hy.wake?_eq, hgoes.id_eq, wakes_concat]

theorem told_of_steps {ls : List Label} (run : Steps s cl ls cl') :
    ∀ {past}, Told s past cl → Told s (past ++ ls) cl' := by
  induction run with
  | nil cl =>
    intro past h
    exact (List.append_nil past).symm ▸ h
  | @cons a b c l ls first _ ih =>
    intro past h
    have hrest := ih (told_step h first)
    rw [List.append_assoc] at hrest
    exact hrest

/-- The octets that a connection reads in a run, piece by piece. -/
def reads (id : Nat) (ls : List Label) : List Octets :=
  (wakes id ls).flatMap fun x => x.directReads ++ x.loopReads

/-- Callers read the first frames of the stream and the read loop reads on. -/
theorem handover_of_link {ls : List Label} (run : Steps s new ls cl) {l : Link}
    (hl : l ∈ cl.links) {frames : List Octets} {results : List (Except EngineError Message)}
    (h : List.Forall₂ (Segment s.framing) frames results)
    (hread : (reads l.id ls).flatten <+: frames.flatten) :
    l.setup.framing = s.framing ∧
      Connection.Handover l.setup frames results (wakes l.id ls) l.connection := by
  have htold : Told s ls cl := told_of_steps run (told_new s)
  obtain ⟨hframing, cs, hcs, hwakes⟩ := htold.links l hl
  have hreads : reads l.id ls = cs.flatMap fun x => x.directReads ++ x.loopReads := by
    rw [reads, ← hwakes]
    exact flatMap_isWake (fun _ => Connection.reads_eq_nil) cs
  rw [hreads] at hread
  rw [← hframing] at h
  exact ⟨hframing, hwakes ▸ (Connection.handover h hcs hread).wakes⟩

/-- A caller is first at the stream and reads a frame, and then the read loop reads one. -/
theorem handover_of_link_at_frame_end :
    let s : ClientSetup :=
      { settings := .standard
        connection := { ConnectionSettings.standard with rateLimit := .zero false }
        framing := .field 64
        handler := .quiet
        chance := fun _ delay => delay }
    let first : Octets := [0, 0, 0, 16, 0, 0, 0, 1, 0, 0, 0, 1, 0, 0, 0, 0]
    let second : Octets := [0, 0, 0, 16, 0, 0, 0, 1, 0, 0, 0, 2, 0, 0, 0, 0]
    let results : List (Except EngineError Message) :=
      [.ok (.field ⟨1, 1, []⟩), .ok (.field ⟨1, 2, []⟩)]
    let ls : List Label :=
      [.connect .readWrite, .dialed 0 (.ok ⟨none, none⟩), .begin 1, .receiveDirect,
        .wake 1 .reader .go, .wake 1 (.direct 0) (.read (.ok first)), .wake 1 .reader .go,
        .wake 1 .reader (.read (.ok (second.take 4))),
        .wake 1 .reader (.read (.ok (second.drop 4)))]
    ∃ cl l, Steps s new ls cl ∧ l ∈ cl.links ∧
      List.Forall₂ (Segment s.framing) [first, second] results ∧
      (reads l.id ls).flatten <+: [first, second].flatten ∧
      l.connection.answers.length = 1 ∧ l.connection.heard.length = 1 ∧
      l.setup.framing = s.framing ∧
      Connection.Handover l.setup [first, second] results (wakes l.id ls) l.connection := by
  intro s first second results ls
  have hseen : ((follow s new ls).bind fun cl => cl.links.head?.map fun l =>
      (l.id, l.connection.answers.length, l.connection.heard.length)) = some (1, 1, 1) := by
    decide +kernel
  obtain ⟨cl, hrun, hl⟩ := Option.bind_eq_some_iff.1 hseen
  obtain ⟨l, hhead, hlengths⟩ := Option.map_eq_some_iff.1 hl
  simp only [Prod.mk.injEq] at hlengths
  obtain ⟨hid, hanswers, hheard⟩ := hlengths
  have hsteps := steps_of_follow hrun
  have hmem := List.mem_of_mem_head? (Option.mem_def.2 hhead)
  have hsegments : List.Forall₂ (Segment s.framing) [first, second] results :=
    .cons (.message rfl) (.cons (.message rfl) .nil)
  have hread : (reads l.id ls).flatten <+: [first, second].flatten := by
    rw [hid]
    decide +kernel
  exact ⟨cl, l, hsteps, hmem, hsegments, hread, hanswers, hheard,
    handover_of_link hsteps hmem hsegments hread⟩

/-- A caller is first at the stream and reads a frame and four octets of the next one. The read loop
gets the other twelve, and takes them for a frame that is too small: the second message is in no
one's hands. -/
theorem frame_lost_between_readers :
    let s : ClientSetup :=
      { settings := .standard
        connection := { ConnectionSettings.standard with rateLimit := .zero false }
        framing := .field 64
        handler := .quiet
        chance := fun _ delay => delay }
    let messages : List Message := [.field ⟨1, 1, []⟩, .field ⟨1, 2, []⟩]
    let first : Octets := [0, 0, 0, 16, 0, 0, 0, 1, 0, 0, 0, 1, 0, 0, 0, 0]
    let second : Octets := [0, 0, 0, 16, 0, 0, 0, 1, 0, 0, 0, 2, 0, 0, 0, 0]
    let ls : List Label :=
      [.connect .readWrite, .dialed 0 (.ok ⟨none, none⟩), .begin 1, .receiveDirect,
        .wake 1 .reader .go, .wake 1 (.direct 0) (.read (.ok (first ++ second.take 4))),
        .wake 1 .reader .go, .wake 1 .reader (.read (.ok (second.drop 4)))]
    ∃ cl l, Steps s new ls cl ∧ l ∈ cl.links ∧
      List.Forall₂ (fun m frame => s.framing.pack m = .ok frame) messages [first, second] ∧
      List.Forall₂ (Segment s.framing) [first, second] (messages.map .ok) ∧
      (reads l.id ls).flatten = [first, second].flatten ∧ l.isClosed = false ∧
      (∃ e, l.connection.heard = [.error e]) ∧
      ¬ l.connection.answers ++ l.connection.heard <+: messages.map .ok := by
  intro s messages first second ls
  have hseen : ((follow s new ls).bind fun cl => cl.links.head?.map fun l =>
      (l.id, l.isClosed, l.connection.answers.map Except.toBool,
        l.connection.heard.map Except.toBool)) =
      some (1, false, [true], [false]) := by
    decide +kernel
  obtain ⟨cl, hrun, hl⟩ := Option.bind_eq_some_iff.1 hseen
  obtain ⟨l, hhead, hcame⟩ := Option.map_eq_some_iff.1 hl
  simp only [Prod.mk.injEq] at hcame
  obtain ⟨hid, hopen, hanswers, hheard⟩ := hcame
  have hmem := List.mem_of_mem_head? (Option.mem_def.2 hhead)
  have hread : (reads l.id ls).flatten = [first, second].flatten := by
    rw [hid]
    decide +kernel
  have herror : ∃ e, l.connection.heard = [.error e] := by
    obtain ⟨r, hr, hbad⟩ := List.map_eq_singleton_iff.1 hheard
    cases r with
    | error e => exact ⟨e, hr⟩
    | ok m => cases hbad
  have hlost : ¬ l.connection.answers ++ l.connection.heard <+: messages.map .ok := by
    intro hprefix
    have hkinds := hprefix.map Except.toBool
    rw [List.map_append, hanswers, hheard] at hkinds
    exact absurd hkinds (by decide)
  exact ⟨cl, l, steps_of_follow hrun, hmem, .cons rfl (.cons rfl .nil),
    .cons (.message rfl) (.cons (.message rfl) .nil), hread, hopen, herror, hlost⟩

end Client
end FrameEngine
