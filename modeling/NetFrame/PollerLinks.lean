import NetFrame.Disabling

/-!
# What the poller and the kernel point to

`EPollPoller` with handlers that are constructed and destroyed and descriptors that are
closed and used again. `Agree` of `Poller` is about handlers that live for ever, each
with a descriptor of its own; here the asserts of `updateHandler` and `removeHandler`
have to do instead.

Results:
1. `Linked.updateHandler`, `Linked.removeHandler`, `Linked.touch`: a call whose asserts
   hold keeps the poller pointing to handlers that are alive.
2. `Linked.construct`, `Linked.destroy`, `Linked.close`: so do the others, if a handler
   is destroyed only when it is not in the poller.
3. `Linked.ready`, `pollEvent_marks`: what a poll reports and writes into the handlers.
-/

namespace NetFrame

namespace EPollPoller

/-! ## 1. The links -/

section

variable {H : Type} {p q : EPollPoller H} {alive : H → Bool} {h : H} {fd : Int}

/-- The poller points only to handlers that are alive: `m_handlermap` has those that
are in the poller, and the kernel has only such as are added. A descriptor that has
been closed the kernel has forgotten. -/
structure Linked (p : EPollPoller H) (alive : H → Bool) : Prop where
  map_iff : ∀ fd h, p.handlermap.find fd = some h ↔
    alive h = true ∧ (p.handlers h).fd = fd ∧ (p.handlers h).state ≠ .kNew
  interest : ∀ fd mask h, p.interest.find fd = some (mask, h) →
    p.handlermap.find fd = some h ∧ (p.handlers h).state = .kAdded

theorem Linked.not_interest (hl : Linked p alive) (hadded : (p.handlers h).state ≠ .kAdded)
    (hmap : ∀ g, p.handlermap.find (p.handlers h).fd = some g → g = h) :
    p.interest.find (p.handlers h).fd = none := by
  rw [Option.eq_none_iff_forall_ne_some]
  rintro ⟨mask, g⟩ hfind
  obtain ⟨hg, hstate⟩ := hl.interest _ _ _ hfind
  rw [hmap g hg] at hstate
  exact hadded hstate

/-- An `EPOLL_CTL_ADD` of a descriptor that the kernel does not have. -/
theorem add_interest (hnone : p.interest.find (p.handlers h).fd = none) :
    ∀ fd mask g, (p.update .EPOLL_CTL_ADD h).interest.find fd = some (mask, g) →
      fd = (p.handlers h).fd ∧ g = h ∨ fd ≠ (p.handlers h).fd ∧
        p.interest.find fd = some (mask, g) := by
  intro fd mask g hfind
  rw [update_add hnone, Table.find_insert] at hfind
  split_ifs at hfind with hfd
  · cases hfind
    exact .inl ⟨hfd, rfl⟩
  · exact .inr ⟨hfd, hfind⟩

/-- An `EPOLL_CTL_MOD`, which fails when the kernel has forgotten the descriptor. -/
theorem mod_interest (fd : Int) (mask : Events) (g : H)
    (hfind : (p.update .EPOLL_CTL_MOD h).interest.find fd = some (mask, g)) :
    fd = (p.handlers h).fd ∧ g = h ∨ fd ≠ (p.handlers h).fd ∧
      p.interest.find fd = some (mask, g) := by
  cases hold : p.interest.find (p.handlers h).fd with
  | none =>
    have hsame : (p.update .EPOLL_CTL_MOD h).interest = p.interest := by
      simp [update, epollCtl, hold]
    rw [hsame] at hfind
    refine .inr ⟨fun hfd => ?_, hfind⟩
    rw [hfd, hold] at hfind
    cases hfind
  | some ev =>
    rw [update_mod hold, Table.find_insert] at hfind
    split_ifs at hfind with hfd
    · cases hfind
      exact .inl ⟨hfd, rfl⟩
    · exact .inr ⟨hfd, hfind⟩

theorem del_interest (fd : Int) (mask : Events) (g : H)
    (hfind : (p.update .EPOLL_CTL_DEL h).interest.find fd = some (mask, g)) :
    fd ≠ (p.handlers h).fd ∧ p.interest.find fd = some (mask, g) := by
  cases hold : p.interest.find (p.handlers h).fd with
  | none =>
    have hsame : (p.update .EPOLL_CTL_DEL h).interest = p.interest := by
      simp [update, epollCtl, hold]
    rw [hsame] at hfind
    refine ⟨fun hfd => ?_, hfind⟩
    rw [hfd, hold] at hfind
    cases hfind
  | some ev =>
    rw [update_del hold, Table.find_erase] at hfind
    split_ifs at hfind with hfd
    exact ⟨hfd, hfind⟩

/-! ## 2. Calls on handlers -/

variable [DecidableEq H]

/-- What a call on `h` may change, when the kernel may have forgotten the descriptor. -/
structure Touches (p q : EPollPoller H) (h : H) (hd : Handler) : Prop where
  handlers : q.handlers = Function.update p.handlers h hd
  fd : hd.fd = (p.handlers h).fd
  found : ∀ g, p.handlermap.find hd.fd = some g → g = h
  map : ∀ fd, q.handlermap.find fd =
    if fd = hd.fd then (if hd.state = .kNew then none else some h) else p.handlermap.find fd
  interest : ∀ fd mask g, q.interest.find fd = some (mask, g) →
    fd = hd.fd ∧ g = h ∧ hd.state = .kAdded ∨
      fd ≠ hd.fd ∧ p.interest.find fd = some (mask, g)
  size : q.eventlistSize = p.eventlistSize

theorem Touches.self {hd : Handler} (ht : Touches p q h hd) : q.handlers h = hd := by
  rw [ht.handlers, Function.update_self]

theorem Touches.other {hd : Handler} (ht : Touches p q h hd) {g : H} (hg : g ≠ h) :
    q.handlers g = p.handlers g := by
  rw [ht.handlers, Function.update_of_ne hg]

theorem Linked.touch {hd : Handler} (hl : Linked p alive) (halive : alive h = true)
    (ht : Touches p q h hd) : Linked q alive := by
  constructor
  · intro fd g
    rw [ht.map]
    by_cases hg : g = h
    · subst hg
      rw [ht.self]
      split_ifs with hfd hnew
      · simp [hnew]
      · simp [halive, hfd, hnew]
      · refine iff_of_false (fun hfind => hfd ?_) fun hr => hfd hr.2.1.symm
        rw [ht.fd]
        exact ((hl.map_iff fd g).mp hfind).2.1.symm
    · rw [ht.other hg]
      split_ifs with hfd hnew
      · refine iff_of_false (by simp) fun hr => hg (ht.found g ?_)
        exact (hl.map_iff _ g).mpr ⟨hr.1, hr.2.1.trans hfd, hr.2.2⟩
      · refine iff_of_false (fun heq => hg (Option.some.inj heq).symm) fun hr => hg (ht.found g ?_)
        exact (hl.map_iff _ g).mpr ⟨hr.1, hr.2.1.trans hfd, hr.2.2⟩
      · exact hl.map_iff fd g
  · intro fd mask g hfind
    rw [ht.map]
    rcases ht.interest fd mask g hfind with ⟨hfd, rfl, hadded⟩ | ⟨hfd, hold⟩
    · rw [if_pos hfd, if_neg (by rw [hadded]; exact HandlerState.noConfusion), ht.self]
      exact ⟨rfl, hadded⟩
    · obtain ⟨hmap, hadded⟩ := hl.interest fd mask g hold
      have hg : g ≠ h := by
        rintro rfl
        exact hfd (((hl.map_iff fd g).mp hmap).2.1.symm.trans ht.fd.symm)
      rw [if_neg hfd, ht.other hg]
      exact ⟨hmap, hadded⟩

/-- `updateHandler` after a change of the mask, when its asserts hold. -/
theorem Linked.updateHandler (hl : Linked p alive) {e : Events}
    (hok : (p.setEvents h e).updateHandler h = .ok q) :
    Touches p q h (nextHandler (p.handlers h) e) := by
  have hself : (p.setEvents h e).handlers h = { p.handlers h with events := e } := by
    simp [setEvents]
  unfold EPollPoller.updateHandler at hok
  rw [hself] at hok
  cases hs : (p.handlers h).state with
  | kNew =>
    rw [hs] at hok
    obtain ⟨hfound, hok⟩ := check_bind_ok.mp hok
    replace hfound : p.handlermap.find (p.handlers h).fd = none := hfound
    have hmap : ∀ g, p.handlermap.find (p.handlers h).fd = some g → g = h := fun g hg => by
      rw [hfound] at hg
      cases hg
    have hnone := hl.not_interest (by rw [hs]; exact HandlerState.noConfusion) hmap
    cases hok
    rw [nextHandler_added (by simp [hs])]
    refine ⟨by simp [setState, setEvents, update], rfl, hmap, fun fd => ?_,
      fun fd mask g hfind => ?_, rfl⟩
    · refine (Table.find_insert p.handlermap (p.handlers h).fd fd h).trans ?_
      simp
    · have hadd := add_interest (by simpa [setState, setEvents] using hnone) fd mask g hfind
      simpa [setState, setEvents] using hadd
  | kDeleted =>
    rw [hs] at hok
    obtain ⟨-, hok⟩ := check_bind_ok.mp hok
    obtain ⟨hfound, hok⟩ := check_bind_ok.mp hok
    replace hfound : p.handlermap.find (p.handlers h).fd = some h := hfound
    have hmap : ∀ g, p.handlermap.find (p.handlers h).fd = some g → g = h := fun g hg =>
      Option.some.inj (hg.symm.trans hfound)
    have hnone := hl.not_interest (by rw [hs]; exact HandlerState.noConfusion) hmap
    cases hok
    rw [nextHandler_added (by simp [hs])]
    refine ⟨by simp [setState, setEvents, update], rfl, hmap, fun fd => ?_,
      fun fd mask g hfind => ?_, rfl⟩
    · refine (Table.find_rewrite hfound fd).trans ?_
      simp
    · have hadd := add_interest (by simpa [setState, setEvents] using hnone) fd mask g hfind
      simpa [setState, setEvents] using hadd
  | kAdded =>
    rw [hs] at hok
    obtain ⟨-, hok⟩ := check_bind_ok.mp hok
    obtain ⟨hfound, hok⟩ := check_bind_ok.mp hok
    replace hfound : p.handlermap.find (p.handlers h).fd = some h := hfound
    have hmap : ∀ g, p.handlermap.find (p.handlers h).fd = some g → g = h := fun g hg =>
      Option.some.inj (hg.symm.trans hfound)
    split at hok
    · next hnone =>
      cases hok
      rw [nextHandler_deleted hs (by simpa [Handler.isNoneEvent] using hnone)]
      refine ⟨by simp [setState, setEvents, update], rfl, hmap, fun fd => ?_,
        fun fd mask g hfind => ?_, rfl⟩
      · refine (Table.find_rewrite hfound fd).trans ?_
        simp
      · have hdel := del_interest fd mask g hfind
        exact .inr (by simpa [setEvents] using hdel)
    · next hsome =>
      cases hok
      rw [nextHandler_added (by simpa [Handler.isNoneEvent, hs] using hsome)]
      refine ⟨by simp [setEvents, update, hs], rfl, hmap, fun fd => ?_,
        fun fd mask g hfind => ?_, rfl⟩
      · refine (Table.find_rewrite hfound fd).trans ?_
        simp
      · have hmod := mod_interest fd mask g hfind
        simpa [setEvents] using hmod

/-- `removeHandler`, when its asserts hold. -/
theorem Linked.removeHandler (hl : Linked p alive) (hok : p.removeHandler h = .ok q) :
    Touches p q h { p.handlers h with state := .kNew } := by
  unfold EPollPoller.removeHandler at hok
  obtain ⟨-, hok⟩ := check_bind_ok.mp hok
  obtain ⟨hfound, hok⟩ := check_bind_ok.mp hok
  obtain ⟨-, hok⟩ := check_bind_ok.mp hok
  obtain ⟨hstate, hok⟩ := check_bind_ok.mp hok
  have hmap : ∀ g, p.handlermap.find (p.handlers h).fd = some g → g = h := fun g hg =>
    Option.some.inj (hg.symm.trans hfound)
  cases hok
  by_cases hadded : (p.handlers h).state = .kAdded
  · rw [if_pos hadded]
    refine ⟨rfl, rfl, hmap, fun fd => ?_, fun fd mask g hfind => .inr ?_, rfl⟩
    · exact Table.find_erase p.handlermap (p.handlers h).fd fd
    · exact del_interest (p := { p with handlermap := p.handlermap.erase (p.handlers h).fd })
        fd mask g hfind
  · rw [if_neg hadded]
    refine ⟨rfl, rfl, hmap, fun fd => ?_, fun fd mask g hfind => .inr ⟨?_, hfind⟩, rfl⟩
    · exact Table.find_erase p.handlermap (p.handlers h).fd fd
    · rintro rfl
      have hnone := hl.not_interest hadded hmap
      rw [show p.interest.find (p.handlers h).fd = _ from hfind] at hnone
      cases hnone

/-! ## 3. Constructions, destructions and closed descriptors -/

theorem Linked.construct (hl : Linked p alive) (hdead : alive h = false) (fd : Int) :
    Linked (p.setHandler h (.make fd)) (Function.update alive h true) := by
  have hne : ∀ fd g, p.handlermap.find fd = some g → g ≠ h := by
    rintro fd g hfind rfl
    rw [((hl.map_iff fd g).mp hfind).1] at hdead
    cases hdead
  constructor
  · intro fd' g
    by_cases hg : g = h
    · subst hg
      refine iff_of_false (fun hfind => hne fd' g hfind rfl) fun hr => hr.2.2 ?_
      rw [setHandler_handlers, Function.update_self]
      rfl
    · rw [setHandler_handlers, Function.update_of_ne hg, Function.update_of_ne hg]
      exact hl.map_iff fd' g
  · intro fd' mask g hfind
    obtain ⟨hmap, hadded⟩ := hl.interest fd' mask g hfind
    refine ⟨hmap, ?_⟩
    rw [setHandler_handlers, Function.update_of_ne (hne fd' g hmap)]
    exact hadded

theorem Linked.destroy (hl : Linked p alive) (hnew : (p.handlers h).state = .kNew) :
    Linked p (Function.update alive h false) := by
  refine ⟨fun fd g => ?_, hl.interest⟩
  by_cases hg : g = h
  · subst hg
    rw [Function.update_self]
    refine iff_of_false (fun hfind => ((hl.map_iff fd g).mp hfind).2.2 hnew) fun hr => ?_
    cases hr.1
  · rw [Function.update_of_ne hg]
    exact hl.map_iff fd g

omit [DecidableEq H] in
theorem Linked.close (hl : Linked p alive) (fd : Int) : Linked (p.close fd) alive := by
  refine ⟨hl.map_iff, fun fd' mask g hfind => hl.interest fd' mask g ?_⟩
  rw [EPollPoller.close, Table.find_erase] at hfind
  split_ifs at hfind
  exact hfind

/-! ## 4. What a poll reports -/

/-- The poller after a poll that has reported the events. -/
structure Marks (p q : EPollPoller H) (events : List (Events × H)) : Prop where
  handlermap : q.handlermap = p.handlermap
  interest : q.interest = p.interest
  reported : ∀ ev ∈ events, q.handlers ev.2 = { p.handlers ev.2 with revents := ev.1 }
  other : ∀ g, g ∉ events.map Prod.snd → q.handlers g = p.handlers g

omit [DecidableEq H] in
theorem marks_nil : Marks p p ([] : List (Events × H)) :=
  ⟨rfl, rfl, fun _ hev => absurd hev List.not_mem_nil, fun _ _ => rfl⟩

theorem marks_foldl {events : List (Events × H)} (hnodup : (events.map Prod.snd).Nodup) :
    Marks p (events.foldl (fun q ev => q.setHandler ev.2 { q.handlers ev.2 with revents := ev.1 })
      p) events := by
  induction events generalizing p with
  | nil => exact marks_nil
  | cons ev events ih =>
    obtain ⟨hnot, hrest⟩ := List.nodup_cons.mp hnodup
    obtain ⟨hmap, hinterest, hreported, hother⟩ :=
      ih (p := p.setHandler ev.2 { p.handlers ev.2 with revents := ev.1 }) hrest
    refine ⟨hmap, hinterest, fun e he => ?_, fun g hg => ?_⟩
    · rcases List.mem_cons.mp he with rfl | he
      · exact (hother e.2 hnot).trans (Function.update_self ..)
      · have hne : e.2 ≠ ev.2 := fun heq => hnot (heq ▸ List.mem_map_of_mem he)
        rw [List.foldl_cons, hreported e he, setHandler_handlers, Function.update_of_ne hne]
    · obtain ⟨hne, hg⟩ := not_or.mp (mt List.mem_cons.mpr hg)
      exact (hother g hg).trans (Function.update_of_ne hne _ _)

/-- `PollEvent` on what `epoll_wait` has stored: it doubles `m_eventlist` when that is full. -/
theorem pollEvent_marks {events : List (Events × H)} {active : List H}
    (hok : p.pollEvent (.ok events) = .ok (q, active)) (hnodup : (events.map Prod.snd).Nodup) :
    active = events.map Prod.snd ∧ Marks p q events := by
  unfold pollEvent at hok
  split at hok
  · next heq => cases heq
  · next heq =>
    cases heq
    cases hok
    exact ⟨rfl, marks_nil⟩
  · next heq =>
    cases heq
    obtain ⟨⟨r, found⟩, hfill, hok⟩ := bind_ok.mp hok
    cases (check_bind_ok.mp hfill).2
    obtain ⟨hmap, hinterest, hreported, hother⟩ := marks_foldl (p := p) hnodup
    dsimp only at hok
    split at hok <;> cases hok <;> exact ⟨rfl, hmap, hinterest, hreported, hother⟩

theorem Marks.record {events : List (Events × H)} (hm : Marks p q events) (g : H) :
    ∃ r, q.handlers g = { p.handlers g with revents := r } := by
  by_cases hg : g ∈ events.map Prod.snd
  · obtain ⟨ev, hev, rfl⟩ := List.mem_map.mp hg
    exact ⟨ev.1, hm.reported ev hev⟩
  · exact ⟨(p.handlers g).revents, hm.other g hg⟩

theorem Linked.marks {events : List (Events × H)} (hl : Linked p alive)
    (hm : Marks p q events) : Linked q alive := by
  constructor
  · intro fd g
    obtain ⟨r, hr⟩ := hm.record g
    rw [hm.handlermap, hr]
    exact hl.map_iff fd g
  · intro fd mask g hfind
    obtain ⟨r, hr⟩ := hm.record g
    rw [hm.handlermap, hr]
    rw [hm.interest] at hfind
    exact hl.interest fd mask g hfind

omit [DecidableEq H] in
/-- `epoll_wait` reports handlers that are alive and added, each once. -/
theorem Linked.ready {ready : List (Int × Events × H)} (hl : Linked p alive)
    (hwait : p.EpollWait ready) : ((ready.map Prod.snd).map Prod.snd).Nodup ∧
      ∀ h ∈ (ready.map Prod.snd).map Prod.snd,
        alive h = true ∧ (p.handlers h).state = .kAdded := by
  obtain ⟨-, hnodup, hready⟩ := hwait
  have hfound : ∀ r ∈ ready, p.handlermap.find r.1 = some r.2.2 ∧
      (p.handlers r.2.2).state = .kAdded := fun r hr => by
    obtain ⟨mask, hfind, -⟩ := hready r hr
    exact hl.interest r.1 mask r.2.2 hfind
  constructor
  · refine List.Nodup.of_map (fun h => (p.handlers h).fd) ?_
    rw [List.map_map, List.map_map]
    refine (List.map_congr_left fun r hr => ?_).symm ▸ hnodup
    exact ((hl.map_iff _ _).mp (hfound r hr).1).2.1
  · intro h hh
    simp only [List.map_map, List.mem_map] at hh
    obtain ⟨r, hr, rfl⟩ := hh
    exact ⟨((hl.map_iff _ _).mp (hfound r hr).1).1, (hfound r hr).2⟩

end

end EPollPoller

end NetFrame
