import FrameEngine.Proofs.Client.Links

/-!
# FrameEngine.Proofs.Client.Slot

A client has one connection that is not closed, or none, and if it has one it is in the slot. Several
callers can dial at the same time, and others close what the first of them has opened, but a socket
becomes a connection only if there is none (`Turn.adopts`), and a connection leaves the slot only to
be closed (`Turn.closes`). So all connections but the one in the slot stay closed (`Slotted`).
-/

namespace FrameEngine

namespace Link

variable {l l' : Link}

theorem Grown.kept {cs : List Label} (h : l.Grown cs) : Connection.Kept l.connection :=
  (Connection.stretch_of_run false h nofun).1

/-- What is closed stays closed. -/
theorem Goes.isClosed {y : Option Label} {cs : List Label} (h : l.Goes y l') (grown : l.Grown cs)
    (closed : l.isClosed = true) : l'.isClosed = true := by
  cases h with
  | stays => exact closed
  | steps hstep => exact Connection.isClosed_steps grown.kept (.cons hstep (.nil _)) closed

/-- The connection makes a step, and its task stays where it is. -/
theorem goes_own {x : Label} {c : Connection} (h : l.connection.step l.setup x = some c) :
    l.Goes (some x) { l with connection := c } :=
  .steps h

end Link

namespace Client

variable {s : ClientSetup} {cl cl' : Client} {x : Label} {l : Link}

theorem live?_eq_some :
    cl.live? = some l ↔ ∃ id, cl.slot = some id ∧ Link.find? cl.links id = some l ∧
      l.isClosed = false := by
  unfold live? link?
  constructor
  · intro h
    split at h
    · rename_i k hk
      split at hk
      · rename_i id hslot
        split at h <;> cases h
        exact ⟨id, hslot, hk, Bool.eq_false_iff.2 ‹_›⟩
      · cases hk
    · cases h
  · rintro ⟨id, hslot, hfind, hopen⟩
    simp only [hslot, hfind, hopen, Bool.false_eq_true, if_false]

/-! ## Slotted -/

/-- Connections stand in the order of their numbers, and all but the one in the slot are closed. -/
structure Slotted (cl : Client) : Prop where
  rising : (cl.links.map Link.id).Pairwise (· < ·)
  below : ∀ l ∈ cl.links, l.id < cl.nextId
  grown : Grown cl
  others : ∀ l ∈ cl.links, l.isClosed = false → cl.slot = some l.id

theorem slotted_new : Slotted new :=
  ⟨.nil, fun _ hl => absurd hl List.not_mem_nil, fun _ hl => absurd hl List.not_mem_nil,
    fun _ hl => absurd hl List.not_mem_nil⟩

namespace Slotted

theorem distinct (h : Slotted cl) : (cl.links.map Link.id).Nodup := h.rising.imp Nat.ne_of_lt

theorem live?_eq (h : Slotted cl) (hl : l ∈ cl.links) (hopen : l.isClosed = false) :
    cl.live? = some l :=
  live?_eq_some.2 ⟨l.id, h.others l hl hopen, Link.find?_of_mem h.distinct hl, hopen⟩

theorem isClosed_of_idle (h : Slotted cl) (idle : cl.isConnected = false) (hl : l ∈ cl.links) :
    l.isClosed = true := by
  by_contra hopen
  have hlive := h.live?_eq hl (Bool.eq_false_iff.2 hopen)
  rw [isConnected, hlive] at idle
  cases idle

end Slotted

/-! ## Turns -/

/-- What a step does to the connections and the slot: connections go on, or a socket becomes one, or
the one in the slot is closed and leaves it. -/
inductive Turn (s : ClientSetup) (cl cl' : Client) : Prop where
  | serves {f : Link → Link} (links : cl'.links = cl.links.map f)
      (goes : ∀ l ∈ cl.links, ∃ y, l.Goes y (f l)) (numbers : cl.nextId ≤ cl'.nextId)
      (slot : cl'.slot = cl.slot) : Turn s cl cl'
  | adopts {loops : LoopSet} {socket : Socket} (idle : cl.isConnected = false)
      (links : cl'.links = cl.links ++ [.new (cl.linkSetup s socket) loops])
      (numbers : cl'.nextId = cl.nextId + 1) (slot : cl'.slot = some cl.nextId) : Turn s cl cl'
  | closes {f : Link → Link} (links : cl'.links = cl.links.map f)
      (goes : ∀ l ∈ cl.links, ∃ y, l.Goes y (f l)) (numbers : cl.nextId ≤ cl'.nextId)
      (slot : cl'.slot = none)
      (closed : ∀ l ∈ cl.links, cl.slot = some l.id → (f l).isClosed = true) : Turn s cl cl'

theorem Turn.relabel {cl'' : Client} (h : Turn s cl cl') (links : cl''.links = cl'.links)
    (numbers : cl''.nextId = cl'.nextId) (slot : cl''.slot = cl'.slot) : Turn s cl cl'' := by
  cases h with
  | serves hlinks goes hnumbers hslot =>
    exact .serves (links.trans hlinks) goes (numbers ▸ hnumbers) (slot.trans hslot)
  | adopts idle hlinks hnumbers hslot =>
    exact .adopts idle (links.trans hlinks) (numbers.trans hnumbers) (slot.trans hslot)
  | closes hlinks goes hnumbers hslot closed =>
    exact .closes (links.trans hlinks) goes (numbers ▸ hnumbers) (slot.trans hslot) closed

theorem map_goes_id {links : List Link} {f : Link → Link}
    (goes : ∀ l ∈ links, ∃ y, l.Goes y (f l)) :
    (links.map f).map Link.id = links.map Link.id := by
  rw [List.map_map]
  refine List.map_congr_left fun l hl => ?_
  obtain ⟨y, hgoes⟩ := goes l hl
  exact hgoes.id_eq

theorem Slotted.map {f : Link → Link} (h : Slotted cl) (links : cl'.links = cl.links.map f)
    (goes : ∀ l ∈ cl.links, ∃ y, l.Goes y (f l)) (numbers : cl.nextId ≤ cl'.nextId)
    (slot : ∀ l ∈ cl.links, (f l).isClosed = false → cl.slot = some l.id → cl'.slot = some l.id) :
    Slotted cl' := by
  refine ⟨?_, fun k hk => ?_, fun k hk => ?_, fun k hk hopen => ?_⟩
  · rw [links, map_goes_id goes]
    exact h.rising
  all_goals
    rw [links] at hk
    obtain ⟨l, hl, rfl⟩ := List.mem_map.1 hk
    obtain ⟨y, hgoes⟩ := goes l hl
    obtain ⟨cs, hcs⟩ := h.grown l hl
  · rw [hgoes.id_eq]
    exact Nat.lt_of_lt_of_le (h.below l hl) numbers
  · exact ⟨_, hcs.goes hgoes⟩
  · have hwas : l.isClosed = false := by
      refine Bool.eq_false_iff.2 fun hclosed => ?_
      rw [hgoes.isClosed hcs hclosed] at hopen
      cases hopen
    rw [hgoes.id_eq]
    exact slot l hl hopen (h.others l hl hwas)

theorem Slotted.turn (h : Slotted cl) (hturn : Turn s cl cl') : Slotted cl' := by
  cases hturn with
  | serves links goes numbers slot =>
    exact h.map links goes numbers fun l _ _ hslot => slot.trans hslot
  | closes links goes numbers slot closed =>
    refine h.map links goes numbers fun l hl hopen hslot => ?_
    rw [closed l hl hslot] at hopen
    cases hopen
  | @adopts loops socket idle links numbers slot =>
    refine ⟨?_, fun k hk => ?_, fun k hk => ?_, fun k hk hopen => ?_⟩
    · rw [links]
      exact Link.rising_concat h.rising h.below
    all_goals
      rw [links] at hk
      rcases List.mem_append.1 hk with hk | hk
    · rw [numbers]
      exact Nat.lt_succ_of_lt (h.below k hk)
    · rw [List.mem_singleton.1 hk, numbers]
      exact Nat.lt_succ_self _
    · exact h.grown k hk
    · rw [List.mem_singleton.1 hk]
      exact ⟨[], .nil _⟩
    · rw [h.isClosed_of_idle idle hk] at hopen
      cases hopen
    · rw [List.mem_singleton.1 hk, slot]
      rfl

/-! ## Steps -/

theorem goes_put (h : Slotted cl) {l' : Link} {y : Option FrameEngine.Label} (hl : l ∈ cl.links)
    (hgoes : l.Goes y l') : ∀ k ∈ cl.links, ∃ y, k.Goes y (if k.id = l'.id then l' else k) := by
  intro k hk
  split
  · rename_i hid
    have hsame : k = l :=
      List.inj_on_of_nodup_map h.distinct hk hl (hid.trans hgoes.id_eq)
    rw [hsame]
    exact ⟨y, hgoes⟩
  · exact ⟨none, .stays⟩

theorem turn_same (links : cl'.links = cl.links) (numbers : cl.nextId ≤ cl'.nextId)
    (slot : cl'.slot = cl.slot) : Turn s cl cl' :=
  .serves (links.trans (List.map_id' _).symm) (fun _ _ => ⟨none, .stays⟩) numbers slot

theorem turn_put (h : Slotted cl) {l' : Link} {y : Option FrameEngine.Label} (hl : l ∈ cl.links)
    (hgoes : l.Goes y l') : Turn s cl { cl with links := l'.put cl.links } :=
  .serves rfl (goes_put h hl hgoes) (Nat.le_refl _) rfl

theorem turn_went (h : Slotted cl) {l' : Link} {id : Nat} {y : FrameEngine.Label}
    {totals : Option Metrics} (found : Link.find? cl.links id = some l)
    (went : l.step none y = some (l', totals)) : Turn s cl (cl.update l') := by
  have hmem := (Link.mem_of_find? found).1
  obtain ⟨cs, hcs⟩ := h.grown l hmem
  exact turn_put h hmem (Link.Grown.goes_step hcs went)

theorem turn_afterAttempt (caller : Nat) (loops : LoopSet) (d : Dialer) (a : Attempt)
    (socket : Socket) : Turn s cl (cl.afterAttempt s caller loops d a socket) := by
  unfold afterAttempt
  split
  · split
    · exact turn_same rfl (Nat.le_refl _) rfl
    · exact .adopts (Bool.eq_false_iff.2 ‹_›) rfl rfl rfl
  · exact turn_same rfl (Nat.le_refl _) rfl
  · exact turn_same rfl (Nat.le_refl _) rfl

/-- A connection that is there can be closed. -/
theorem stepLink_close (h : Grown cl) {id : Nat} (hl : Link.find? cl.links id = some l) :
    cl.stepLink id .close =
      some (cl.update { l with connection := l.connection.close l.setup }) := by
  obtain ⟨cs, hcs⟩ := h l (Link.mem_of_find? hl).1
  unfold stepLink
  simp only [hl]
  cases hp : l.step none .close with
  | none => cases hp
  | some p =>
    obtain ⟨c, hc, hlink⟩ := Link.Grown.step_eq hcs hp
    cases hc
    exact congrArg (fun k => some (cl.update k)) hlink

theorem turn_close (h : Slotted cl) : Turn s cl cl.close := by
  unfold close
  split
  · exact turn_same rfl (Nat.le_refl _) rfl
  · rename_i id hslot
    have hclosed : Turn s cl ((Client.stepLink { cl with slot := none } id .close).getD
        { cl with slot := none }) := by
      cases hl : Link.find? cl.links id with
      | none =>
        have hnone : Client.stepLink { cl with slot := none } id .close = none := by
          simp only [stepLink, hl]
        rw [hnone]
        refine .closes (List.map_id' _).symm (fun _ _ => ⟨none, .stays⟩) (Nat.le_refl _) rfl ?_
        intro l hmem hid
        rw [hslot] at hid
        cases hid
        exact absurd (decide_eq_true rfl) (List.find?_eq_none.1 hl l hmem)
      | some l =>
        obtain ⟨hmem, hid⟩ := Link.mem_of_find? hl
        have hgrown : Grown { cl with slot := none } := h.grown
        rw [stepLink_close hgrown hl]
        generalize hafter : { l with connection := l.connection.close l.setup } = l'
        have hgoes : l.Goes (some .close) l' := hafter ▸ Link.goes_own rfl
        have hover : l'.isClosed = true := hafter ▸ Connection.isClosed_close l.connection
        refine .closes rfl (goes_put h hmem hgoes) (Nat.le_refl _) rfl fun k _ hk => ?_
        have hsame : k.id = l'.id := by
          rw [hslot] at hk
          rw [hgoes.id_eq, hid]
          exact (Option.some.inj hk).symm
        rw [if_pos hsame]
        exact hover
    dsimp only
    split <;> exact hclosed.relabel rfl rfl rfl

/-! ## Uses of the connection -/

/-- What a caller's use of the connection is to it. -/
def Label.use? (f : Framing) : Label → Option FrameEngine.Label
  | .send m => some (.send m)
  | .sendDirect m => (f.pack m).toOption.map .sendDirect
  | .receiveDirect => some .receiveDirect
  | .close => some .close
  | _ => none

/-- Whoever sends or receives has the connection make a step of its own. -/
theorem step_of_use (h : Slotted cl) (live : cl.live? = some l) {y : FrameEngine.Label}
    (hy : x.use? s.framing = some y) (stays : x ≠ .close) :
    ∃ c, l.connection.step l.setup y = some c ∧
      cl.step s x = some (cl.update { l with connection := c }) := by
  cases x with
  | send m =>
    cases hy
    refine ⟨_, rfl, ?_⟩
    simp only [step, send, live]
    cases l.connection.send l.setup m with
    | ok c => rfl
    | error e =>
      have hsame : cl.update l = cl := by
        rw [update, Link.put_self h.distinct (live_mem live)]
      exact congrArg some hsame.symm
  | sendDirect m =>
    cases packed : s.framing.pack m with
    | error e =>
      rw [Label.use?, packed] at hy
      cases hy
    | ok frame =>
      rw [Label.use?, packed] at hy
      cases hy
      refine ⟨_, rfl, ?_⟩
      simp only [step, sendDirect, live, packed]
      rfl
  | receiveDirect =>
    cases hy
    refine ⟨_, rfl, ?_⟩
    simp only [step, receiveDirect, live]
    rfl
  | close => exact absurd rfl stays
  | _ => cases hy

/-- Whoever closes takes the connection out of the slot, and closes it. -/
theorem close_of_live (h : Grown cl) (live : cl.live? = some l) :
    cl.close.links = Link.put { l with connection := l.connection.close l.setup } cl.links := by
  obtain ⟨id, hslot, hfind, -⟩ := live?_eq_some.1 live
  have hgrown : Grown { cl with slot := none } := h
  unfold close
  simp only [hslot, stepLink_close hgrown hfind, Option.getD_some]
  split <;> rfl

/-! ## Runs -/

theorem turn_step (h : Slotted cl) (hstep : cl.step s x = some cl') : Turn s cl cl' := by
  cases step_of hstep with
  | ticks timers wall =>
    refine .serves rfl (fun l hl => ?_) (Nat.le_refl _) rfl
    obtain ⟨cs, hcs⟩ := h.grown l hl
    cases hs : l.step none (.tick timers wall) with
    | none => exact ⟨none, .stays⟩
    | some p => exact ⟨_, Link.Grown.goes_step hcs hs⟩
  | draws => exact turn_same rfl (Nat.le_succ _) rfl
  | asks loops => exact turn_same rfl (Nat.le_refl _) rfl
  | connects dialing => exact turn_afterAttempt _ _ _ _ _
  | fails dialing => exact turn_afterAttempt _ _ _ _ _
  | expires dialing due => exact turn_afterAttempt _ _ _ _ _
  | resumes pausing due => exact turn_same rfl (Nat.le_refl _) rfl
  | begins found begun =>
    have hmem := (Link.mem_of_find? found).1
    obtain ⟨cs, hcs⟩ := h.grown _ hmem
    obtain ⟨loops, hgoes⟩ := Link.Grown.goes_begin hcs begun
    exact turn_put h hmem hgoes
  | @finishes id l found ready =>
    have hgoes : l.Goes none { l with ended := true } := .stays
    exact turn_put h (Link.mem_of_find? found).1 hgoes
  | closes => exact turn_close h
  | returns joining found ended => exact turn_same rfl (Nat.le_refl _) rfl
  | sends live sent =>
    exact turn_put h (live_mem live) (Link.goes_own (Connection.step_send sent))
  | @sendsDirect _ _ frame live packed =>
    exact turn_put h (live_mem live) (Link.goes_own (x := .sendDirect frame) rfl)
  | receives live => exact turn_put h (live_mem live) (Link.goes_own (x := .receiveDirect) rfl)
  | refuses use => exact turn_same rfl (Nat.le_refl _) rfl
  | starts found went => exact turn_went h found went
  | goes found went => exact turn_went h found went

theorem slotted_of_steps {ls : List Label} (run : Steps s cl ls cl') : Slotted cl → Slotted cl' := by
  induction run with
  | nil cl => exact id
  | cons first _ ih => exact fun h => ih (h.turn (turn_step h first))

/-- What callers of a client can rely on, whatever they do at the same time. -/
structure Alone (s : ClientSetup) (cl : Client) : Prop where
  /-- All connections but one are closed, -/
  single : ∀ k ∈ cl.links, ∀ l ∈ cl.links, k.isClosed = false → l.isClosed = false → k = l
  /-- and that one is in the slot. -/
  slot : ∀ l ∈ cl.links, l.isClosed = false → cl.slot = some l.id ∧ cl.live? = some l
  /-- Whoever sends, receives or closes does so on it: it makes that step, and no other goes on. -/
  uses : ∀ l x y cl', cl.live? = some l → x.use? s.framing = some y → cl.step s x = some cl' →
    ∃ c, l.connection.step l.setup y = some c ∧
      cl'.links = Link.put { l with connection := c } cl.links
  /-- As long as it is there, no step makes a connection. -/
  keeps : ∀ l x cl', cl.live? = some l → cl.step s x = some cl' →
    cl'.links.map Link.id = cl.links.map Link.id
  /-- Whoever comes to open a connection is refused, and nothing else happens, -/
  refuses : ∀ l loops, cl.live? = some l → cl.step s (.connect loops) =
    some { cl with opens := cl.opens ++ [⟨loops, .answered (.error .alreadyConnected)⟩] }
  /-- and so is whoever has dialled in the meantime. -/
  drops : ∀ l caller loops deadline d socket, cl.live? = some l →
    cl.opens[caller]? = some ⟨loops, .dialing deadline d⟩ →
    cl.step s (.dialed caller (.ok socket)) =
      some (cl.setOpen caller ⟨loops, .answered (.error .alreadyConnected)⟩)

theorem alone_of_steps {ls : List Label} (run : Steps s new ls cl) : Alone s cl := by
  have h : Slotted cl := slotted_of_steps run slotted_new
  refine ⟨fun k hk l hl hopen hopen' => ?_, fun l hl hopen => ?_, fun l x y cl' live hy hstep => ?_,
    fun l x cl' live hstep => ?_, fun l loops live => ?_,
    fun l caller loops deadline d socket live hcaller => ?_⟩
  · exact Option.some.inj ((h.live?_eq hk hopen).symm.trans (h.live?_eq hl hopen'))
  · exact ⟨h.others l hl hopen, h.live?_eq hl hopen⟩
  · by_cases hclose : x = .close
    · subst hclose
      cases hy
      cases hstep
      exact ⟨_, rfl, close_of_live h.grown live⟩
    · obtain ⟨c, hc, hused⟩ := step_of_use h live hy hclose
      rw [hused] at hstep
      cases hstep
      exact ⟨c, hc, rfl⟩
  · cases turn_step h hstep with
    | serves links goes _ _ => rw [links, map_goes_id goes]
    | closes links goes _ _ _ => rw [links, map_goes_id goes]
    | adopts idle _ _ _ =>
      rw [isConnected, live] at idle
      cases idle
  · simp only [step, beginOpen, isConnected, live]
    rfl
  · simp only [step, dialed, hcaller, afterAttempt, Dialer.judge, Dialer.failure?, isConnected,
      live]
    rfl

/-- Two callers dial at the same time, and a third comes when the first has its connection: only the
first one gets one. It is closed while its task still runs, and another is opened. -/
theorem alone_of_steps_of_race :
    let s : ClientSetup :=
      { settings := .standard
        connection := { ConnectionSettings.standard with rateLimit := .zero false }
        framing := .field 64
        handler := .quiet
        chance := fun _ delay => delay }
    let ls : List Label :=
      [.connect .readWrite, .connect .writeOnly, .dialed 0 (.ok ⟨none, none⟩), .begin 1,
        .connect .readWrite, .dialed 1 (.ok ⟨none, none⟩), .wake 1 .reader .go, .close,
        .connect .writeOnly, .dialed 3 (.ok ⟨none, none⟩), .send (.field ⟨1, 1, []⟩)]
    let refused (c : OpenCall) : Bool :=
      match c.point with
      | .answered (.error .alreadyConnected) => true
      | _ => false
    ∃ cl, Steps s new ls cl ∧ Alone s cl ∧
      cl.links.map (fun l => (l.id, l.isClosed, l.connection.queued)) =
        [(1, true, 0), (2, false, 1)] ∧
      cl.slot = some 2 ∧ cl.opens.map refused = [false, true, true, false] := by
  intro s ls refused
  have hseen : (follow s new ls).map (fun cl =>
      (cl.links.map (fun l => (l.id, l.isClosed, l.connection.queued)), cl.slot,
        cl.opens.map refused)) =
      some ([(1, true, 0), (2, false, 1)], some 2, [false, true, true, false]) := by
    decide +kernel
  obtain ⟨cl, hrun, hcl⟩ := Option.map_eq_some_iff.1 hseen
  simp only [Prod.mk.injEq] at hcl
  obtain ⟨hlinks, hslot, hopens⟩ := hcl
  have hsteps := steps_of_follow hrun
  exact ⟨cl, hsteps, alone_of_steps hsteps, hlinks, hslot, hopens⟩

end Client
end FrameEngine
