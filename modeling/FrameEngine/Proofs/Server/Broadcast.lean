import FrameEngine.Proofs.Server.Books

/-!
# FrameEngine.Proofs.Server.Broadcast

A message for all. A server hands the packed frame to one registered connection after the other. In
which order it does so is left open where the register is a table without an order, so `visit` goes
through the numbers in any order, one at a time. What comes of it does not depend on the order: each
registered connection that is open and has room gets the frame, behind what waits already, and the
others are left as they are (`visit_eq`).

A server is `Sound` if its numbers name one connection each and its open connections can be given
frames. Servers are sound in all their runs (`sound_of_steps`).
-/

namespace FrameEngine

open Connection

namespace Link

/-- An open connection with room in its queue. -/
def takes (l : Link) : Bool :=
  !l.isClosed && decide (l.connection.queue.waiting.length < l.connection.queue.capacity)

/-- The connection with a frame more at the end of its queue. -/
def enqueued (frame : Octets) (l : Link) : Link :=
  let queue := { l.connection.queue with waiting := l.connection.queue.waiting ++ [frame] }
  { l with connection := { l.connection with queue }.note (.queued frame) }

variable {l : Link} {frame : Octets}

theorem sendFrame_of_takes (hs : Supplied l.connection) (ht : l.takes = true) :
    l.connection.sendFrame frame = .ok (l.enqueued frame).connection := by
  obtain ⟨hopen, hroom⟩ := Bool.and_eq_true_iff.1 ht
  have hopen' : l.connection.isClosed = false := Bool.not_eq_true' _ ▸ hopen
  rw [sendFrame, if_neg (Bool.eq_false_iff.1 hopen'),
    SendQueue.push_of_room (hs hopen') (of_decide_eq_true hroom)]
  rfl

/-- The error of a connection that takes no frame. -/
theorem sendFrame_of_not_takes (frame : Octets) (hs : Supplied l.connection)
    (ht : l.takes = false) : ∃ e, l.connection.sendFrame frame = .error e := by
  cases hclosed : l.connection.isClosed with
  | true => exact ⟨_, if_pos hclosed⟩
  | false =>
    have hfull : l.connection.queue.capacity ≤ l.connection.queue.waiting.length := by
      rw [takes, isClosed, hclosed] at ht
      exact Nat.not_lt.1 (of_decide_eq_false ht)
    refine ⟨.sendBufferFull, ?_⟩
    rw [sendFrame, if_neg (Bool.eq_false_iff.1 hclosed),
      SendQueue.push_of_full (hs hclosed) hfull]

/-- The link with the frame, if its number is one of these and it takes it. -/
def offered (frame : Octets) (ids : List Nat) (l : Link) : Link :=
  if l.id ∈ ids ∧ l.takes = true then l.enqueued frame else l

theorem id_offered (frame : Octets) (ids : List Nat) (l : Link) :
    (l.offered frame ids).id = l.id := by
  unfold offered
  split <;> rfl

theorem offered_of_not_mem {ids : List Nat} (h : l.id ∉ ids) : l.offered frame ids = l :=
  if_neg fun hl => h hl.1

theorem id_enqueued (frame : Octets) (l : Link) : (l.enqueued frame).id = l.id := rfl

theorem supplied_offered (hs : Supplied l.connection) (ids : List Nat) :
    Supplied (l.offered frame ids).connection := by
  unfold offered
  split
  · exact hs
  · exact hs

end Link

namespace Server

/-- How many of the connections with these numbers take a frame. -/
def takers (ids : List Nat) (links : List Link) : Nat :=
  links.countP fun l => decide (l.id ∈ ids) && l.takes

/-- A frame for the connection with a number, and one more to the count if it takes it. -/
def visitOne (frame : Octets) (r : Nat × List Link) (id : Nat) : Nat × List Link :=
  match Link.find? r.2 id with
  | none => r
  | some l =>
    match l.connection.sendFrame frame with
    | .ok connection => (r.1 + 1, ({ l with connection } : Link).put r.2)
    | .error _ => r

/-- A frame for the connections with these numbers, one after the other; and how many took it. -/
def visit (frame : Octets) (order : List Nat) (links : List Link) : Nat × List Link :=
  order.foldl (visitOne frame) (0, links)

/-- Numbers name one connection each, and what is open can be given frames. -/
structure Sound (sv : Server) : Prop where
  distinct : (sv.links.map Link.id).Nodup
  registered : sv.registered.Nodup
  supplied : ∀ l ∈ sv.links, Supplied l.connection

variable {s : ServerSetup} {sv sv' : Server} {frame : Octets} {links : List Link} {ids : List Nat}
  {id : Nat} {l : Link}

/-! ## Runs -/

theorem nodup_act {b b' : Books} (h : Books.Act b b') (hb : b.registered.Nodup) :
    b'.registered.Nodup := by
  cases h with
  | admits =>
    refine List.nodup_cons.2 ⟨fun hmem => ?_, hb.filter _⟩
    exact of_decide_eq_true (List.mem_filter.1 hmem).2 rfl
  | ends => exact hb.filter _
  | _ => exact hb

theorem nodup_acts {b b' : Books} (h : Books.Acts b b') (hb : b.registered.Nodup) :
    b'.registered.Nodup := by
  induction h with
  | refl => exact hb
  | tail _ last ih => exact nodup_act last ih

theorem sound_of_steps {ls : List Label} (run : Steps s (new s) ls sv) : sv.Sound := by
  obtain ⟨horderly, hacts⟩ := acts_of_steps run (orderly_new s)
  exact ⟨horderly.rising.imp Nat.ne_of_lt, nodup_acts hacts List.nodup_nil,
    fun l hl => (horderly.tended l hl).supplied⟩

/-! ## One connection after the other -/

theorem takers_of_forall_not_mem (h : ∀ l ∈ links, l.id ∉ ids) : takers ids links = 0 := by
  refine List.countP_eq_zero.2 fun l hl => ?_
  rw [decide_eq_false (h l hl), Bool.false_and]
  exact Bool.false_ne_true

theorem takers_append (ids : List Nat) (before after : List Link) :
    takers ids (before ++ after) = takers ids before + takers ids after :=
  List.countP_append

theorem takers_single (distinct : (links.map Link.id).Nodup) (hl : l ∈ links) :
    takers [l.id] links = l.takes.toNat := by
  obtain ⟨before, after, rfl⟩ := List.append_of_mem hl
  have hothers : ∀ k ∈ before ++ after, k.id ∉ [l.id] := by
    intro k hk hid
    rw [List.map_append, List.map_cons, List.nodup_middle, ← List.map_append,
      List.nodup_cons] at distinct
    exact distinct.1 (List.mem_singleton.1 hid ▸ List.mem_map_of_mem hk)
  have hself : takers [l.id] [l] = l.takes.toNat := by
    cases ht : l.takes <;> simp [takers, ht]
  rw [List.append_cons, takers_append, takers_append, hself,
    takers_of_forall_not_mem fun k hk => hothers k (List.mem_append_left _ hk),
    takers_of_forall_not_mem fun k hk => hothers k (List.mem_append_right _ hk)]
  omega

/-- A link with the frame, put in its place. -/
theorem put_offered (distinct : (links.map Link.id).Nodup) (hl : l ∈ links) (ht : l.takes = true) :
    (l.enqueued frame).put links = links.map (Link.offered frame [l.id]) := by
  refine List.map_congr_left fun k hk => ?_
  rw [Link.id_enqueued]
  by_cases hid : k.id = l.id
  · have hsame : k = l := List.inj_on_of_nodup_map distinct hk hl hid
    rw [if_pos hid, Link.offered, hsame, if_pos ⟨List.mem_singleton_self _, ht⟩]
  · rw [if_neg hid, Link.offered_of_not_mem (fun hmem => hid (List.mem_singleton.1 hmem))]

theorem map_offered_of_forall (h : ∀ l ∈ links, l.id ∈ ids → l.takes = false) :
    links.map (Link.offered frame ids) = links := by
  refine (List.map_congr_left fun l hl => if_neg ?_).trans (List.map_id' _)
  rintro ⟨hid, ht⟩
  exact absurd ((h l hl hid).symm.trans ht) nofun

theorem visitOne_eq (distinct : (links.map Link.id).Nodup)
    (supplied : ∀ l ∈ links, Supplied l.connection) (n id : Nat) :
    visitOne frame (n, links) id =
      (n + takers [id] links, links.map (Link.offered frame [id])) := by
  unfold visitOne
  dsimp only
  cases hfound : Link.find? links id with
  | none =>
    have hnone : ∀ l ∈ links, l.id ∉ [id] := by
      intro l hl hid
      have hself := Link.find?_of_mem distinct hl
      rw [List.mem_singleton.1 hid, hfound] at hself
      cases hself
    rw [takers_of_forall_not_mem hnone,
      map_offered_of_forall fun l hl hid => absurd hid (hnone l hl)]
    rfl
  | some l =>
    obtain ⟨hl, rfl⟩ := Link.mem_of_find? hfound
    rw [takers_single distinct hl]
    cases ht : l.takes with
    | true =>
      rw [← put_offered distinct hl ht]
      simp only [Link.sendFrame_of_takes (supplied l hl) ht]
      rfl
    | false =>
      obtain ⟨e, he⟩ := Link.sendFrame_of_not_takes frame (supplied l hl) ht
      have hkeeps : ∀ k ∈ links, k.id ∈ [l.id] → k.takes = false := by
        intro k hk hid
        rw [List.inj_on_of_nodup_map distinct hk hl (List.mem_singleton.1 hid), ht]
      rw [map_offered_of_forall hkeeps]
      simp only [he]
      rfl

theorem takers_cons (h : id ∉ ids) (links : List Link) :
    takers (id :: ids) links = takers [id] links + takers ids links := by
  induction links with
  | nil => rfl
  | cons l links ih =>
    simp only [takers, List.countP_cons] at ih ⊢
    rw [ih]
    by_cases hid : l.id = id
    · simp [hid, h]
      omega
    · simp [hid]
      omega

/-- Those that come later have not been touched. -/
theorem takers_map_offered (h : id ∉ ids) (links : List Link) :
    takers ids (links.map (Link.offered frame [id])) = takers ids links := by
  rw [takers, List.countP_map]
  refine List.countP_congr fun l _ => ?_
  rw [Function.comp_apply, Link.id_offered]
  by_cases hid : l.id = id
  · rw [hid, decide_eq_false h, Bool.false_and, Bool.false_and]
  · rw [Link.offered_of_not_mem fun hmem => hid (List.mem_singleton.1 hmem)]

theorem map_offered_cons (h : id ∉ ids) (links : List Link) :
    (links.map (Link.offered frame [id])).map (Link.offered frame ids) =
      links.map (Link.offered frame (id :: ids)) := by
  rw [List.map_map]
  refine List.map_congr_left fun l _ => ?_
  rw [Function.comp_apply]
  by_cases hid : l.id = id
  · have hlater : (l.offered frame [id]).id ∉ ids := by rwa [Link.id_offered, hid]
    rw [Link.offered_of_not_mem hlater, Link.offered, Link.offered]
    simp only [hid, List.mem_cons, true_or, List.not_mem_nil, or_false]
  · rw [Link.offered_of_not_mem fun hmem => hid (List.mem_singleton.1 hmem), Link.offered,
      Link.offered]
    simp only [List.mem_cons, hid, false_or]

/-- Each connection that is visited, and takes the frame, counts once and has it once. -/
theorem foldl_visitOne {order : List Nat} (once : order.Nodup) (n : Nat) :
    ∀ {links : List Link}, (links.map Link.id).Nodup →
      (∀ l ∈ links, Supplied l.connection) →
      order.foldl (visitOne frame) (n, links) =
        (n + takers order links, links.map (Link.offered frame order)) := by
  induction order generalizing n with
  | nil =>
    intro links _ _
    have hnone : ∀ l ∈ links, l.id ∉ [] := fun _ _ => List.not_mem_nil
    rw [takers_of_forall_not_mem hnone,
      map_offered_of_forall fun l hl hid => absurd hid (hnone l hl)]
    rfl
  | cons id rest ih =>
    intro links distinct supplied
    obtain ⟨hfirst, hrest⟩ := List.nodup_cons.1 once
    have hids : (links.map (Link.offered frame [id])).map Link.id = links.map Link.id := by
      rw [List.map_map]
      exact List.map_congr_left fun l _ => Link.id_offered frame [id] l
    have hsupplied : ∀ l ∈ links.map (Link.offered frame [id]), Supplied l.connection := by
      intro l hl
      obtain ⟨k, hk, rfl⟩ := List.mem_map.1 hl
      exact Link.supplied_offered (supplied k hk) [id]
    rw [List.foldl_cons, visitOne_eq distinct supplied, ih hrest _ (hids ▸ distinct) hsupplied,
      takers_map_offered hfirst, map_offered_cons hfirst, takers_cons hfirst, Nat.add_assoc]

/-! ## All at once -/

theorem takers_congr {ids' : List Nat} (h : ∀ id, id ∈ ids ↔ id ∈ ids') :
    takers ids links = takers ids' links := by
  simp only [takers, h]

theorem offered_congr {ids' : List Nat} (h : ∀ id, id ∈ ids ↔ id ∈ ids') :
    Link.offered frame ids = Link.offered frame ids' := by
  funext l
  simp only [Link.offered, h]

/-- The order makes no difference. -/
theorem visit_eq (hs : sv.Sound) {order : List Nat} (perm : order.Perm sv.registered) :
    visit frame order sv.links =
      (takers sv.registered sv.links, sv.links.map (Link.offered frame sv.registered)) := by
  have hmem : ∀ id, id ∈ order ↔ id ∈ sv.registered := fun _ => perm.mem_iff
  rw [visit, foldl_visitOne (perm.nodup_iff.2 hs.registered) 0 hs.distinct hs.supplied,
    Nat.zero_add, takers_congr hmem, offered_congr hmem]

theorem count_deliver (ids : List Nat) (supplied : ∀ l ∈ links, Supplied l.connection) :
    (deliver ids frame links).count = takers ids links := by
  induction links with
  | nil => rfl
  | cons l links ih =>
    have hrest := ih fun k hk => supplied k (List.mem_cons_of_mem l hk)
    have hself := supplied l List.mem_cons_self
    rw [takers, List.countP_cons, ← takers, ← hrest, deliver]
    by_cases hid : l.id ∈ ids
    · rw [if_pos (List.contains_iff_mem.2 hid), decide_eq_true hid, Bool.true_and]
      cases ht : l.takes with
      | true => simp only [Link.sendFrame_of_takes hself ht, if_true]
      | false =>
        obtain ⟨e, he⟩ := Link.sendFrame_of_not_takes frame hself ht
        simp only [he, Bool.false_eq_true, if_false, Nat.add_zero]
    · rw [if_neg (fun hc => hid (List.contains_iff_mem.1 hc)), decide_eq_false hid]
      rfl

theorem offer_eq_offered (ids : List Nat) (hs : Supplied l.connection) :
    offer ids frame l = l.offered frame ids := by
  unfold offer Link.offered
  by_cases hid : l.id ∈ ids
  · rw [if_pos (List.contains_iff_mem.2 hid)]
    cases ht : l.takes with
    | true =>
      rw [if_pos ⟨hid, rfl⟩, Link.sendFrame_of_takes hs ht]
      rfl
    | false =>
      obtain ⟨e, he⟩ := Link.sendFrame_of_not_takes frame hs ht
      rw [if_neg fun h => Bool.false_ne_true h.2, he]
      rfl
  · rw [if_neg (fun hc => hid (List.contains_iff_mem.1 hc)), if_neg fun h => hid h.1]

theorem noteLines_eq (skipped : List (Nat × EngineError)) (sv : Server) :
    ∃ history, skipped.foldl (fun sv p => sv.note (.logged (skippedLine p))) sv =
      { sv with history } := by
  induction skipped generalizing sv with
  | nil => exact ⟨_, rfl⟩
  | cons p rest ih => exact ih (sv.note (.logged (skippedLine p)))

/-- What a message for all does. -/
structure Broadcasts (s : ServerSetup) (sv : Server) (m : Message) : Prop where
  /-- Nothing but an error comes of a message that cannot be packed. -/
  fails : ∀ e, s.framing.pack m = .error e →
    sv.broadcast s m = .error e ∧ sv.step s (.broadcast m) = none
  /-- Else each registered connection that is open and has room has the frame at the end of its
  queue, and they are counted. Nothing else has changed, short of what has been logged. -/
  reaches : ∀ frame, s.framing.pack m = .ok frame → ∃ history,
    sv.broadcast s m = .ok (takers sv.registered sv.links,
      { sv with links := sv.links.map (Link.offered frame sv.registered), history })
  /-- It is as if they were visited one by one, in any order. -/
  unordered : ∀ frame order, s.framing.pack m = .ok frame → order.Perm sv.registered →
    (sv.broadcast s m).map (fun r => (r.1, r.2.links)) = .ok (visit frame order sv.links)

theorem broadcasts_of_sound (hs : sv.Sound) (m : Message) : Broadcasts s sv m := by
  have hreaches : ∀ frame, s.framing.pack m = .ok frame → ∃ history,
      sv.broadcast s m = .ok (takers sv.registered sv.links,
        { sv with links := sv.links.map (Link.offered frame sv.registered), history }) := by
    intro frame hpack
    have hlinks : (deliver sv.registered frame sv.links).links =
        sv.links.map (Link.offered frame sv.registered) := by
      rw [links_deliver]
      exact List.map_congr_left fun l hl => offer_eq_offered _ (hs.supplied l hl)
    obtain ⟨history, hnotes⟩ := noteLines_eq (deliver sv.registered frame sv.links).skipped
      { sv with links := (deliver sv.registered frame sv.links).links }
    refine ⟨history, ?_⟩
    rw [broadcast, hpack]
    dsimp only
    rw [hnotes, count_deliver _ hs.supplied, hlinks]
  refine ⟨fun e hpack => ?_, hreaches, fun frame order hpack perm => ?_⟩
  · have herror : sv.broadcast s m = .error e := by rw [broadcast, hpack]
    refine ⟨herror, ?_⟩
    rw [step, herror]
    rfl
  · obtain ⟨history, hdone⟩ := hreaches frame hpack
    rw [hdone, visit_eq hs perm]
    rfl

/-- A message for all reaches those that are open and have room, and does nothing to the others:
in every state that a server can come to, and in all states in which numbers name one connection
each and open connections can be given frames. -/
theorem broadcast_exact (s : ServerSetup) :
    (∀ sv, Reachable s sv → sv.Sound) ∧ ∀ sv m, sv.Sound → Broadcasts s sv m :=
  ⟨fun _ ⟨_, run⟩ => sound_of_steps run, fun _ m hs => broadcasts_of_sound hs m⟩

/-- One frame fills a queue. The first connection has one waiting, the third is closed, the fourth
has ended; only the second takes what is for all. -/
theorem broadcast_exact_of_four :
    let s : ServerSetup :=
      { settings := ServerSettings.standard
        connection := { ConnectionSettings.standard with sendQueueSize := 1 }
        framing := .field 64
        handler := .quiet
        chance := fun _ delay => delay }
    let ls : List Label :=
      [.start "127.0.0.1:9000", .acceptGo, .accept (.ok "127.0.0.1:5001"),
        .accept (.ok "127.0.0.1:5002"), .accept (.ok "127.0.0.1:5003"),
        .accept (.ok "127.0.0.1:5004"), .send 1 (.field ⟨1, 1, []⟩), .close 3, .close 4, .begin 4,
        .finish 4]
    let m : Message := .field ⟨2, 2, [7]⟩
    ∃ sv, Steps s (new s) ls sv ∧ sv.Sound ∧ Broadcasts s sv m ∧ sv.registered = [3, 2, 1] ∧
      sv.links.map Link.takes = [false, true, false, false] ∧
      (sv.broadcast s m).toOption.map (fun r =>
        (r.1, r.2.links.map fun l => l.connection.queue.waiting.length)) =
        some (1, [1, 1, 0, 0]) := by
  intro s ls m
  have hseen : (follow s (new s) ls).map (fun sv =>
      (sv.registered, sv.links.map Link.takes, (sv.broadcast s m).toOption.map fun r =>
        (r.1, r.2.links.map fun l => l.connection.queue.waiting.length))) =
      some ([3, 2, 1], [false, true, false, false], some (1, [1, 1, 0, 0])) := by
    decide +kernel
  obtain ⟨sv, hrun, hsv⟩ := Option.map_eq_some_iff.1 hseen
  obtain ⟨hregistered, hsv⟩ := Prod.mk.inj hsv
  obtain ⟨htakes, hcount⟩ := Prod.mk.inj hsv
  have hsteps := steps_of_follow hrun
  have hsound : sv.Sound := (broadcast_exact s).1 sv ⟨ls, hsteps⟩
  exact ⟨sv, hsteps, hsound, (broadcast_exact s).2 sv m hsound, hregistered, htakes, hcount⟩

end Server
end FrameEngine
