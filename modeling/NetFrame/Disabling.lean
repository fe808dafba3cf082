import NetFrame.Poller

/-!
# What disabling a handler does

`Handler::disableAll` and its siblings on a handler that is never removed. A
handler is meant to be in the kernel's interest set exactly while `m_events` is
not zero, since the kernel reports `EPOLLHUP` and `EPOLLERR` for every registered
descriptor. `updateHandler` looks at the mask of an added handler only: a call
that leaves a new or a deleted handler without events registers it.

Results:
1. `disableAll_registers`: `disableAll` twice registers the descriptor again.
   `TcpConnection::handleClose` and `connectionDestroyed` make these two calls.
2. `disabling_holds_iff`: a run keeps to what is meant exactly when each of its
   calls that leaves the handler without events finds it added; and a repeated
   `disableAll` always changes `m_state` and the interest set.
-/

namespace NetFrame

namespace EPollPoller

open Trans

variable {H : Type}

/-! ## 1. One call -/

/-- The handler that a call is made on. -/
def Call.handler : Call H → H
  | .enableReading h => h
  | .enableWriting h => h
  | .disableWriting h => h
  | .disableAll h => h
  | .removeHandler h => h

/-- `m_events` after a call. -/
def Call.mask (e : Events) : Call H → Events
  | .enableReading _ => e ||| Handler.kReadEvent
  | .enableWriting _ => e ||| Handler.kWriteEvent
  | .disableWriting _ => e &&& ~~~Handler.kWriteEvent
  | .disableAll _ => Handler.kNoneEvent
  | .removeHandler _ => e

/-- The record of the handler after a call. -/
def Call.next (hd : Handler) : Call H → Handler
  | .removeHandler _ => { hd with state := .kNew }
  | c => nextHandler hd (c.mask hd.events)

/-- The kernel's interest set contains the descriptor of `h`. -/
def Registered (p : EPollPoller H) (h : H) : Prop :=
  (p.interest.find (p.handlers h).fd).isSome = true

/-- `h` is in the interest set exactly while it wants to hear of something. -/
def Polled (p : EPollPoller H) (h : H) : Prop :=
  Registered p h ↔ (p.handlers h).events ≠ Handler.kNoneEvent

/-- A call that leaves `h` without events finds it added. -/
def FindsAdded (h : H) (p : EPollPoller H) (c : Call H) : Prop :=
  c.handler = h → c.mask (p.handlers h).events = Handler.kNoneEvent → (p.handlers h).state = .kAdded

section

variable {p q : EPollPoller H} {h : H}

theorem Call.next_events (hd : Handler) (c : Call H) : (c.next hd).events = c.mask hd.events := by
  cases c <;> rfl

theorem Call.next_of_ne (hd : Handler) {c : Call H} (hc : c ≠ .removeHandler c.handler) :
    c.next hd = nextHandler hd (c.mask hd.events) := by
  cases c with
  | removeHandler g => exact absurd rfl hc
  | _ => rfl

theorem AgreeAt.registered_iff (hA : AgreeAt p h) :
    Registered p h ↔ (p.handlers h).state = .kAdded := by
  rw [Registered, hA.interest]
  split <;> simp_all

variable [DecidableEq H]

instance (h : H) (p : EPollPoller H) (c : Call H) : Decidable (FindsAdded h p c) :=
  decidable_of_iff (c.handler ≠ h ∨ c.mask (p.handlers h).events ≠ Handler.kNoneEvent ∨
    (p.handlers h).state = .kAdded) (by rw [FindsAdded]; tauto)

/-- A call changes the record of its handler and the entries of its descriptor. -/
theorem execCall_local (hp : Sound p) {c : Call H} (hl : Legal p c) :
    ∃ q, execCall p c = .ok (q, ()) ∧ Local p q c.handler (c.next (p.handlers c.handler)) := by
  cases c with
  | enableReading g =>
    obtain ⟨q, hok, hlocal⟩ := updateHandler_spec (hp.agreeAt g)
      ((p.handlers g).events ||| Handler.kReadEvent)
    exact ⟨q, by simp [execCall, enableReading, hok, Except.map], hlocal⟩
  | enableWriting g =>
    obtain ⟨q, hok, hlocal⟩ := updateHandler_spec (hp.agreeAt g)
      ((p.handlers g).events ||| Handler.kWriteEvent)
    exact ⟨q, by simp [execCall, enableWriting, hok, Except.map], hlocal⟩
  | disableWriting g =>
    obtain ⟨q, hok, hlocal⟩ := updateHandler_spec (hp.agreeAt g)
      ((p.handlers g).events &&& ~~~Handler.kWriteEvent)
    exact ⟨q, by simp [execCall, disableWriting, hok, Except.map], hlocal⟩
  | disableAll g =>
    obtain ⟨q, hok, hlocal⟩ := updateHandler_spec (hp.agreeAt g) Handler.kNoneEvent
    exact ⟨q, by simp [execCall, disableAll, hok, Except.map], hlocal⟩
  | removeHandler g =>
    obtain ⟨hnone, hfound⟩ := hl
    obtain ⟨q, hok, hlocal⟩ := remove_spec (hp.agreeAt g)
      ((hp.agree.map_iff _ _).mp hfound).2 (by simpa [Handler.isNoneEvent] using hnone)
    exact ⟨q, by simp [execCall, hok, Except.map], hlocal⟩

/-- The record after a call says that the handler is added exactly if it has
events, when the call does not leave it without events or finds it added. -/
theorem nextHandler_added_iff (hd : Handler) (e : Events) :
    ((nextHandler hd e).state = .kAdded ↔ (nextHandler hd e).events ≠ Handler.kNoneEvent) ↔
      (e = Handler.kNoneEvent → hd.state = .kAdded) := by
  by_cases he : e = Handler.kNoneEvent
  · by_cases hs : hd.state = .kAdded
    · simp [nextHandler, nextState, he, hs]
    · simp [nextHandler, nextState, he, hs]
  · simp [nextHandler, nextState, he]

/-- A call on `h` other than `removeHandler` leaves it polled as it should be
exactly when `FindsAdded` says so. -/
theorem Local.polled_iff {c : Call H} (hc : c ≠ .removeHandler h) (hh : c.handler = h)
    (hlocal : Local p q h (c.next (p.handlers h))) : Polled q h ↔ FindsAdded h p c := by
  rw [Polled, hlocal.agreeAt.registered_iff, hlocal.self, Call.next_of_ne _ (by rwa [hh]),
    nextHandler_added_iff, FindsAdded]
  simp [hh]

/-- A call on another handler leaves `h` as it was. -/
theorem Local.polled_other {c : Call H} (hp : Sound p) (hh : c.handler ≠ h)
    (hlocal : Local p q c.handler (c.next (p.handlers c.handler))) : Polled q h ↔ Polled p h := by
  have hfd : (p.handlers h).fd ≠ (p.handlers c.handler).fd := fun heq => hh (hp.distinct heq).symm
  have hother := hlocal.agreeAt_other (hp.agreeAt h) hfd
  rw [Polled, Polled, hother.registered_iff, (hp.agreeAt h).registered_iff,
    hlocal.other (Ne.symm hh)]

/-- `disableAll` always changes `m_state`, and takes the descriptor out of the
interest set or puts it there. -/
theorem disableAll_toggles (hA : AgreeAt p h) :
    ∃ q, p.disableAll h = .ok q ∧ (q.handlers h).state ≠ (p.handlers h).state ∧
      (Registered q h ↔ ¬Registered p h) := by
  obtain ⟨q, hok, hlocal⟩ := updateHandler_spec hA Handler.kNoneEvent
  refine ⟨q, hok, ?_⟩
  rw [hlocal.agreeAt.registered_iff, hA.registered_iff, hlocal.self]
  cases hs : (p.handlers h).state <;> simp [nextHandler, nextState, hs]

end

/-! ## 2. Runs -/

section

variable [DecidableEq H] {fds : H → Int} {h : H} {calls : List (Call H)}

/-- The last of the calls on `h` is `disableAll`. -/
def LastDisables (h : H) (calls : List (Call H)) : Prop :=
  (calls.filter fun c => c.handler = h).getLast? = some (.disableAll h)

/-- What is meant, for the calls of a run on new handlers: after every call `h`
is polled exactly while it has events, and a repeated `disableAll` changes
nothing. -/
def DisablingHolds (fds : H → Int) (h : H) (calls : List (Call H)) : Prop :=
  ∀ pre c post p rs q, calls = pre ++ c :: post →
    runOps execCall (make fds) pre = .ok (p, rs) → execCall p c = .ok (q, ()) →
    Polled q h ∧ (c = .disableAll h → LastDisables h pre →
      (q.handlers h).state = (p.handlers h).state ∧ q.handlermap = p.handlermap ∧
        q.interest = p.interest)

/-- A handler that is disabled twice, as a connection's is that the peer closes. -/
def closedConnection : List (Call Unit) :=
  [.enableReading (), .disableAll (), .disableAll ()]

theorem disableAll_registers : ¬DisablingHolds (fun _ => 5) () closedConnection := by
  intro hholds
  obtain ⟨p, rs, hrun⟩ : ∃ p rs, runOps execCall (make fun _ : Unit => 5)
      [.enableReading (), .disableAll ()] = .ok (p, rs) := ⟨_, _, rfl⟩
  obtain ⟨q, hq⟩ : ∃ q, execCall p (.disableAll ()) = .ok (q, ()) := by
    cases hrun
    exact ⟨_, rfl⟩
  have hpolled := (hholds [.enableReading (), .disableAll ()] (.disableAll ()) [] p rs q
    rfl hrun hq).1
  cases hrun
  cases hq
  revert hpolled
  unfold Polled Registered
  decide +kernel

/-- The poller after the first calls of a legal run. -/
theorem sound_of_run (hfds : Function.Injective fds)
    (hl : LegalOps execCall Legal (make fds) calls) {p : EPollPoller H} {rs : List Unit}
    (hrun : runOps execCall (make fds) calls = .ok (p, rs)) : Sound p := by
  refine runOps_invariant (I := Sound) (fun p c q r hp hlegal hok => ?_)
    (make_models hfds).toSound hl hrun
  obtain ⟨q', hok', hlocal⟩ := execCall_local hp hlegal
  cases hok'.symm.trans hok
  exact hlocal.sound hp

/-- `m_events` after a run: the calls on `h` in turn. -/
theorem events_of_run {p₀ p : EPollPoller H} {rs : List Unit} (hp : Sound p₀)
    (hl : LegalOps execCall Legal p₀ calls) (hrun : runOps execCall p₀ calls = .ok (p, rs)) :
    (p.handlers h).events =
      (calls.filter fun c => c.handler = h).foldl Call.mask (p₀.handlers h).events := by
  induction calls generalizing p₀ rs with
  | nil =>
    cases hrun
    rfl
  | cons c calls ih =>
    obtain ⟨p₁, r, rs', hexec, hrest, -⟩ := runOps_cons_ok hrun
    obtain ⟨q, hok, hlocal⟩ := execCall_local hp hl.1
    cases hok.symm.trans hexec
    rw [ih (hlocal.sound hp) (hl.2 p₁ () hexec) hrest]
    by_cases hh : c.handler = h
    · rw [List.filter_cons_of_pos (by simpa using hh), List.foldl_cons]
      subst hh
      rw [hlocal.self, Call.next_events]
    · rw [List.filter_cons_of_neg (by simpa using hh), hlocal.other (Ne.symm hh)]

theorem LastDisables.events {p₀ p : EPollPoller H} {rs : List Unit} (hlast : LastDisables h calls)
    (hp : Sound p₀) (hl : LegalOps execCall Legal p₀ calls)
    (hrun : runOps execCall p₀ calls = .ok (p, rs)) :
    (p.handlers h).events = Handler.kNoneEvent := by
  obtain ⟨before, heq⟩ := List.getLast?_eq_some_iff.mp hlast
  rw [events_of_run hp hl hrun, heq, List.foldl_append]
  rfl

/-- Where each call that leaves `h` without events finds it added, `h` is polled
as it should be. -/
theorem polled_of_run (hfds : Function.Injective fds)
    (hl : LegalOps execCall Legal (make fds) calls) (hkeep : ∀ c ∈ calls, c ≠ .removeHandler h)
    (hadded : LegalOps execCall (FindsAdded h) (make fds) calls) {p : EPollPoller H}
    {rs : List Unit} (hrun : runOps execCall (make fds) calls = .ok (p, rs)) : Polled p h := by
  have hinit : Sound (make fds) ∧ Polled (make fds) h := by
    refine ⟨(make_models hfds).toSound, ?_⟩
    rw [Polled, ((make_models hfds).agreeAt h).registered_iff]
    simp [make, Handler.make, Handler.kNoneEvent]
  refine (runOps_invariant (I := fun p => Sound p ∧ Polled p h) (fun p c q r hI hlegal hok => ?_)
    hinit ((hl.and hadded).and_forall hkeep) hrun).2
  obtain ⟨⟨hlegal, hfinds⟩, hc⟩ := hlegal
  obtain ⟨q', hok', hlocal⟩ := execCall_local hI.1 hlegal
  cases hok'.symm.trans hok
  refine ⟨hlocal.sound hI.1, ?_⟩
  by_cases hh : c.handler = h
  · subst hh
    exact (hlocal.polled_iff hc rfl).mpr hfinds
  · exact (hlocal.polled_other hI.1 hh).mpr hI.2

/-- What is meant holds of a run in which `h` is not removed exactly when each
call that leaves `h` without events finds it added. It never includes a repeated
`disableAll`, which always changes `m_state` and the interest set. -/
theorem disabling_holds_iff (hfds : Function.Injective fds)
    (hl : LegalOps execCall Legal (make fds) calls)
    (hkeep : ∀ c ∈ calls, c ≠ .removeHandler h) :
    (DisablingHolds fds h calls ↔ LegalOps execCall (FindsAdded h) (make fds) calls) ∧
      ∀ p rs, runOps execCall (make fds) calls = .ok (p, rs) →
        ∃ q, p.disableAll h = .ok q ∧ (q.handlers h).state ≠ (p.handlers h).state ∧
          (Registered q h ↔ ¬Registered p h) := by
  refine ⟨⟨fun hholds => ?_, fun hadded => ?_⟩, fun p rs hrun => ?_⟩
  · refine legalOps_iff.mpr fun pre c post p rs heq hrun hh => ?_
    have hp : Sound p := sound_of_run hfds (heq ▸ hl).of_append hrun
    obtain ⟨q, hok, hlocal⟩ := execCall_local hp (legalOps_iff.mp hl pre c post p rs heq hrun)
    have hpolled := (hholds pre c post p rs q heq hrun hok).1
    subst hh
    exact (hlocal.polled_iff (hkeep c (by simp [heq])) rfl).mp hpolled rfl
  · intro pre c post p rs q heq hrun hok
    have hlpre : LegalOps execCall Legal (make fds) pre := (heq ▸ hl).of_append
    have hp : Sound p := sound_of_run hfds hlpre hrun
    obtain ⟨q', hok', hlocal⟩ := execCall_local hp (legalOps_iff.mp hl pre c post p rs heq hrun)
    cases hok'.symm.trans hok
    have hpolled : Polled p h := polled_of_run hfds hlpre
      (fun c' hc' => hkeep c' (by simp [heq, hc'])) (heq ▸ hadded).of_append hrun
    have hfinds := legalOps_iff.mp hadded pre c post p rs heq hrun
    refine ⟨?_, fun hc hlast => ?_⟩
    · by_cases hh : c.handler = h
      · subst hh
        exact (hlocal.polled_iff (hkeep c (by simp [heq])) rfl).mpr hfinds
      · exact (hlocal.polled_other hp hh).mpr hpolled
    · -- the second `disableAll` does not find the handler added
      have he := hlast.events (make_models hfds).toSound hlpre hrun
      have hs : (p.handlers h).state = .kAdded := by
        subst hc
        exact hfinds rfl rfl
      exact absurd he (hpolled.mp ((hp.agreeAt h).registered_iff.mpr hs))
  · exact disableAll_toggles ((sound_of_run hfds hl hrun).agreeAt h)

/-- A connection that is written to, closed by its peer, and opened again by
another call, beside a handler that is removed. -/
def reopened : List (Call Bool) :=
  [.enableReading true, .enableReading false, .enableWriting true, .disableWriting true,
    .disableAll false, .removeHandler false, .disableAll true, .enableWriting true]

theorem reopened_holds : DisablingHolds (fun b : Bool => if b then 5 else 7) true reopened :=
  (disabling_holds_iff (by unfold Function.Injective; decide) (by decide +kernel)
    (by decide)).1.mpr (by decide +kernel)

end

end EPollPoller

end NetFrame
