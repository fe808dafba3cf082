import NetFrame.Connection
import NetFrame.Lib.Machine
import NetFrame.Lib.SharedPtr

/-!
# The references to a connection during its dispatch

`Handler::handleEvent` of a `TcpConnection`, with every `TcpConnectionPtr` to it:
those on the stack of the dispatching thread (`guard`, `guardThis`, the arguments
of callbacks and functors), and those of users, of `m_connections` and of queued
functors, which anyone may copy and release at any time.

The dispatching thread works through a list of instructions, what it has still to
do of `handleEvent`; a callback puts the instructions of its calls in front.

Results:
1. `dispatch_keeps_connection`: while `m_bEventHandling` is set the connection
   exists, so that the assertion of `~Handler` never fails.
2. After the last reference has gone no callback is ever made.
-/

namespace NetFrame

namespace Dispatch

open Trans

/-! ## 1. References and instructions -/

/-- The functors that hold a reference. -/
inductive Functor where
  | removeConnectionInLoop
  | connectionDestroyed
  | writeComplete
  deriving DecidableEq, Repr

/-- Who holds a reference. -/
inductive Ref where
  | user
  /-- `m_connections` -/
  | connections
  | functor (f : Functor)
  /-- `guard` of `handleEvent` -/
  | guard
  /-- `guardThis` of `handleClose` -/
  | guardThis
  /-- The argument of `m_messageCB`. -/
  | argument
  /-- The functor that `removeConnection` hands to `runInLoop`. -/
  | bound
  /-- The functor that the loop is running. -/
  | running
  deriving DecidableEq, Repr

/-- A reference that is not on the stack of the dispatching thread. -/
def Ref.shared : Ref → Bool
  | .user | .connections | .functor _ => true
  | .guard | .guardThis | .argument | .bound | .running => false

inductive Instr where
  | copy (r : Ref)
  | release (r : Ref)
  /-- `m_bEventHandling = b` -/
  | setHandling (b : Bool)
  | callback (cb : Handler.Callback)
  /-- The code of a user's callback, which returns now. -/
  | user
  /-- `m_connections.erase(conn->getName())` -/
  | erase
  deriving DecidableEq, Repr

/-- `Handler::m_handleEvent`. -/
def handleEventCode (revents : Events) : List Instr :=
  [.setHandling true] ++ (Handler.handleEvent revents).map .callback ++ [.setHandling false]

def removeConnectionInLoop : List Instr := [.erase, .copy (.functor .connectionDestroyed)]

/-- `removeConnection` in the thread of the base loop, or of another loop. -/
def removeConnection (inBaseLoop : Bool) : List Instr :=
  [.copy .bound] ++
  (if inBaseLoop then removeConnectionInLoop else [.copy (.functor .removeConnectionInLoop)]) ++
  [.release .bound]

def upcallCode (inBaseLoop : Bool) : Upcall → List Instr
  | .connectionCB => [.user]
  | .messageCB => [.copy .argument, .user, .release .argument]
  | .closeCB => removeConnection inBaseLoop
  | .queueWriteComplete => [.copy (.functor .writeComplete)]

/-- The calls of a callback. Those of `handleClose` are made under `guardThis`. -/
def callsCode (inBaseLoop : Bool) (us : List Upcall) : List Instr :=
  if .closeCB ∈ us then
    [.copy .guardThis] ++ us.flatMap (upcallCode inBaseLoop) ++ [.release .guardThis]
  else us.flatMap (upcallCode inBaseLoop)

/-! ## 2. The steps -/

/-- What ends the process. -/
inductive Crash where
  /-- `assert(!m_bEventHandling)` of `~Handler` -/
  | eventHandling
  | fault (f : Fault)
  deriving DecidableEq, Repr

structure State (H : Type) where
  conn : TcpConnection H
  refs : SharedPtr Ref
  /-- `m_btied` -/
  btied : Bool
  /-- `m_bEventHandling` -/
  bEventHandling : Bool
  /-- What the dispatching thread has still to do. -/
  code : List Instr
  /-- The callbacks that have been made. -/
  made : List Handler.Callback
  /-- `~TcpConnection` has run. -/
  destroyed : Bool
  crashed : Option Crash

/-- What the code of a user's callback may call in the loop's thread. -/
inductive UserCall where
  | sendInLoop (data : List Byte) (r : WriteResult)
  | shutdownInLoop
  | connectionDestroyed
  deriving DecidableEq, Repr

inductive Act where
  /-- The loop finds the handler active. -/
  | handleEvent (revents : Events)
  /-- The next instruction; `r` and `w` are what a read and a write return. -/
  | exec (r : Buffer.ReadResult) (w : WriteResult)
  /-- The user's callback that is running calls the connection. -/
  | call (c : UserCall)
  /-- The loop runs a functor with such a call, or `removeConnectionInLoop`. -/
  | runFunctor (c : Option UserCall)
  /-- Anyone copies or releases a reference that is not on the stack. -/
  | copy (r : Ref)
  | release (r : Ref)
  deriving DecidableEq, Repr

section

variable {H : Type} [DecidableEq H]

/-- `~TcpConnection`, and with it `~Handler`. -/
def State.destroy (s : State H) : State H :=
  if s.bEventHandling then { s with crashed := some .eventHandling }
  else { s with destroyed := true }

def State.copy (s : State H) (r : Ref) : State H := { s with refs := s.refs.copy r }

/-- A reference is released; the last one destroys the connection. -/
def State.release (s : State H) (r : Ref) : State H :=
  let t := { s with refs := s.refs.release r }
  if r ∈ s.refs.holders ∧ t.refs.useCount = 0 then t.destroy else t

/-- `Handler::handleEvent`. -/
def State.handleEvent (s : State H) (revents : Events) : State H :=
  if s.btied then
    match s.refs.lock .guard with
    | some refs => { s with refs := refs, code := handleEventCode revents ++ [.release .guard] }
    | none => s
  else { s with code := handleEventCode revents }

/-- The function of the connection that is the callback. -/
def callback (r : Buffer.ReadResult) (w : WriteResult) (cb : Handler.Callback)
    (conn : TcpConnection H) : Except Fault (TcpConnection H) :=
  match cb with
  | .close => conn.handleClose
  | .error => .ok conn
  | .read => conn.handleRead r
  | .write => conn.handleWrite w

def UserCall.run (c : UserCall) (conn : TcpConnection H) : Except Fault (TcpConnection H) :=
  match c with
  | .sendInLoop data r => conn.sendInLoop true data r
  | .shutdownInLoop => .ok (conn.setState .kDisconnecting).shutdownInLoop
  | .connectionDestroyed => conn.connectionDestroyed

/-- A call of a function of the connection, with what it leaves to do. -/
def State.run (s : State H) (inBaseLoop : Bool)
    (f : TcpConnection H → Except Fault (TcpConnection H)) : State H :=
  match f { s.conn with upcalls := [] } with
  | .error e => { s with crashed := some (.fault e) }
  | .ok conn => { s with conn := conn, code := callsCode inBaseLoop conn.upcalls ++ s.code }

def State.exec (s : State H) (inBaseLoop : Bool) (r : Buffer.ReadResult) (w : WriteResult) :
    State H :=
  match s.code with
  | [] => s
  | i :: code =>
    let t := { s with code := code }
    match i with
    | .copy ref => t.copy ref
    | .release ref => t.release ref
    | .setHandling b => { t with bEventHandling := b }
    | .callback cb => { t with made := t.made ++ [cb] }.run inBaseLoop (callback r w cb)
    | .user => t
    | .erase => if .connections ∈ t.refs.holders then t.release .connections else t

/-- A functor of the loop, which keeps its reference until it has returned. -/
def State.runFunctor (s : State H) (inBaseLoop : Bool) (c : Option UserCall) : State H :=
  let t := { s.copy .running with code := [.release .running] }
  match c with
  | some c => t.run inBaseLoop c.run
  | none => { t with code := removeConnectionInLoop ++ t.code }

def guard (s : State H) (a : Act) : Prop :=
  s.crashed = none ∧
  match a with
  | .handleEvent _ => s.code = []
  | .exec _ _ => s.code ≠ []
  | .call _ => s.code.head? = some .user
  | .runFunctor _ => s.code = [] ∧ 0 < s.refs.useCount
  | .copy r => r.shared = true ∧ 0 < s.refs.useCount
  | .release r => r.shared = true ∧ r ∈ s.refs.holders

instance (s : State H) (a : Act) : Decidable (guard s a) := by
  unfold guard
  cases a <;> infer_instance

def effect (inBaseLoop : Bool) (s : State H) : Act → State H
  | .handleEvent revents => s.handleEvent revents
  | .exec r w => s.exec inBaseLoop r w
  | .call c => s.run inBaseLoop c.run
  | .runFunctor c => s.runFunctor inBaseLoop c
  | .copy r => s.copy r
  | .release r => s.release r

/-- A connection that exists, is tied and is not being dispatched. -/
structure Live (s : State H) : Prop where
  alive : 0 < s.refs.useCount
  shared : ∀ r ∈ s.refs.holders, r.shared = true
  tied : s.btied = true
  idle : s.code = []
  handling : s.bEventHandling = false
  destroyed : s.destroyed = false
  crashed : s.crashed = none

/-- The runs from a live connection whose loop is the base loop or not. -/
def machine (H : Type) [DecidableEq H] (inBaseLoop : Bool) : Machine (State H) Act :=
  Machine.guarded Live guard (effect inBaseLoop)

/-! ## 3. What the dispatching thread holds -/

/-- With `n` references of `r` the code releases only what it holds, and in the end
everything. -/
def Backed (r : Ref) : Nat → List Instr → Prop
  | n, [] => n = 0
  | n, .copy r' :: code => Backed r (if r' = r then n + 1 else n) code
  | n, .release r' :: code =>
    if r' = r then 0 < n ∧ Backed r (n - 1) code else Backed r n code
  | n, _ :: code => Backed r n code

/-- An instruction of a call: it leaves the flag and the two outermost references alone. -/
def Instr.plain : Instr → Bool
  | .copy r | .release r => r ≠ .guard ∧ r ≠ .running
  | .user | .erase => true
  | .setHandling _ | .callback _ => false

/-- An instruction of `m_handleEvent`. -/
def Instr.inner : Instr → Bool
  | .callback _ => true
  | i => i.plain

/-- The end of `handleEvent`. -/
def handleEventEnd : List Instr := [.setHandling false, .release .guard]

/-- Where the dispatching thread is, for the value of `m_bEventHandling`. -/
inductive Shape : Bool → List Instr → Prop
  | idle : Shape false []
  | functor {body : List Instr} : (∀ i ∈ body, i.plain = true) →
      Shape false (body ++ [.release .running])
  | entering {body : List Instr} : (∀ i ∈ body, i.inner = true) →
      Shape false (.setHandling true :: (body ++ handleEventEnd))
  | inside {body : List Instr} : (∀ i ∈ body, i.inner = true) →
      Shape true (body ++ handleEventEnd)
  | leaving : Shape false [.release .guard]

structure Inv (s : State H) : Prop where
  tied : s.btied = true
  backed : ∀ r, r.shared = false → Backed r (s.refs.holders.count r) s.code
  shape : Shape s.bEventHandling s.code
  destroyed : 0 < s.refs.useCount → s.destroyed = false
  crashed : s.crashed ≠ some .eventHandling

section

variable {s t : State H} {r : Ref} {n : Nat} {body code : List Instr}

theorem backed_inner (hr : r = .guard ∨ r = .running) (hbody : ∀ i ∈ body, i.inner = true) :
    Backed r n (body ++ code) ↔ Backed r n code := by
  induction body generalizing n with
  | nil => rfl
  | cons i body ih =>
    have hi := hbody i List.mem_cons_self
    have hrest : ∀ j ∈ body, j.inner = true := fun j hj => hbody j (List.mem_cons_of_mem _ hj)
    cases i with
    | copy r' =>
      have hne : r' ≠ r := by
        rintro rfl
        rcases hr with rfl | rfl <;> simp [Instr.inner, Instr.plain] at hi
      simpa [Backed, hne] using ih hrest
    | release r' =>
      have hne : r' ≠ r := by
        rintro rfl
        rcases hr with rfl | rfl <;> simp [Instr.inner, Instr.plain] at hi
      simpa [Backed, hne] using ih hrest
    | setHandling b => simp [Instr.inner, Instr.plain] at hi
    | _ => simpa [Backed] using ih hrest

/-- The calls of a function release what they copy. -/
theorem backed_upcalls (inBaseLoop : Bool) (hr : r.shared = false) (us : List Upcall) :
    Backed r n (us.flatMap (upcallCode inBaseLoop) ++ code) ↔ Backed r n code := by
  have hne : ∀ f, Ref.functor f ≠ r := by
    rintro f rfl
    cases hr
  induction us with
  | nil => rfl
  | cons u us ih =>
    rw [List.flatMap_cons, List.append_assoc]
    cases u with
    | connectionCB => simpa [upcallCode, Backed] using ih
    | messageCB =>
      by_cases ha : Ref.argument = r
      · simpa [upcallCode, Backed, ha] using ih
      · simpa [upcallCode, Backed, ha] using ih
    | closeCB =>
      by_cases ha : Ref.bound = r
      · cases inBaseLoop <;>
          simpa [upcallCode, removeConnection, removeConnectionInLoop, Backed, ha, hne] using ih
      · cases inBaseLoop <;>
          simpa [upcallCode, removeConnection, removeConnectionInLoop, Backed, ha, hne] using ih
    | queueWriteComplete => simpa [upcallCode, Backed, hne] using ih

theorem backed_calls (inBaseLoop : Bool) (hr : r.shared = false) (us : List Upcall) :
    Backed r n (callsCode inBaseLoop us ++ code) ↔ Backed r n code := by
  unfold callsCode
  split
  · rw [List.append_assoc, List.append_assoc]
    by_cases hg : Ref.guardThis = r
    · simp [Backed, hg, backed_upcalls inBaseLoop hr]
    · simp [Backed, hg, backed_upcalls inBaseLoop hr]
  · exact backed_upcalls inBaseLoop hr us

theorem plain_calls (inBaseLoop : Bool) (us : List Upcall) :
    ∀ i ∈ callsCode inBaseLoop us, i.plain = true := by
  have hplain : ∀ i ∈ us.flatMap (upcallCode inBaseLoop), i.plain = true := by
    intro i hi
    obtain ⟨u, -, hu⟩ := List.mem_flatMap.mp hi
    cases u <;> cases inBaseLoop <;>
      simp [upcallCode, removeConnection, removeConnectionInLoop] at hu <;>
      rcases hu with rfl | rfl | rfl | rfl <;> rfl
  unfold callsCode
  split
  · intro i hi
    rw [List.mem_append, List.mem_append, List.mem_singleton, List.mem_singleton] at hi
    rcases hi with (rfl | hi) | rfl
    · rfl
    · exact hplain i hi
    · rfl
  · exact hplain

theorem inner_of_plain {i : Instr} (h : i.plain = true) : i.inner = true := by
  cases i <;> first | exact h | rfl

/-- What the next instruction can be, and where the thread is after it. -/
theorem Shape.next {b : Bool} {i : Instr} (h : Shape b (i :: code)) :
    i.inner = true ∧ Shape b code ∨
    i = .setHandling true ∧ Shape true code ∨
    i = .setHandling false ∧ Shape false code ∨
    (i = .release .guard ∨ i = .release .running) ∧ b = false ∧ code = [] := by
  generalize heq : i :: code = c at h
  cases h with
  | idle => cases heq
  | @functor body hbody =>
    cases body with
    | nil =>
      cases heq
      exact .inr (.inr (.inr ⟨.inr rfl, rfl, rfl⟩))
    | cons j body =>
      cases heq
      exact .inl ⟨inner_of_plain (hbody _ List.mem_cons_self),
        .functor fun j hj => hbody j (List.mem_cons_of_mem _ hj)⟩
  | @entering body hbody =>
    cases heq
    exact .inr (.inl ⟨rfl, .inside hbody⟩)
  | @inside body hbody =>
    cases body with
    | nil =>
      cases heq
      exact .inr (.inr (.inl ⟨rfl, .leaving⟩))
    | cons j body =>
      cases heq
      exact .inl ⟨hbody _ List.mem_cons_self,
        .inside fun j hj => hbody j (List.mem_cons_of_mem _ hj)⟩
  | leaving =>
    cases heq
    exact .inr (.inr (.inr ⟨.inl rfl, rfl, rfl⟩))

theorem Shape.tail {b : Bool} {i : Instr} (h : Shape b (i :: code))
    (hset : ∀ b', i ≠ .setHandling b') (hrelease : ∀ r, i ≠ .release r) : Shape b code := by
  rcases h.next with ⟨-, h⟩ | ⟨h, -⟩ | ⟨h, -⟩ | ⟨h | h, -⟩
  · exact h
  · exact absurd h (hset _)
  · exact absurd h (hset _)
  · exact absurd h (hrelease _)
  · exact absurd h (hrelease _)

theorem Shape.off {b : Bool} (h : Shape b []) : b = false := by
  generalize heq : [] = c at h
  cases h with
  | @inside body hbody => cases body <;> cases heq
  | _ => rfl

/-- Calls may come in front of an instruction of a call or of `m_handleEvent`. -/
theorem Shape.push {b : Bool} {calls : List Instr} (hcalls : ∀ j ∈ calls, j.plain = true)
    {i : Instr} (hi : i.inner = true) (h : Shape b (i :: code)) :
    Shape b (calls ++ code) ∧ Shape b (calls ++ i :: code) := by
  generalize heq : i :: code = c at h
  cases h with
  | idle => cases heq
  | @functor body hbody =>
    cases body with
    | nil =>
      cases heq
      simp [Instr.inner, Instr.plain] at hi
    | cons j body =>
      cases heq
      show Shape false (calls ++ (body ++ [.release .running])) ∧
        Shape false (calls ++ (i :: body ++ [.release .running]))
      rw [← List.append_assoc, ← List.append_assoc]
      refine ⟨.functor ?_, .functor ?_⟩
      · exact List.forall_mem_append.mpr ⟨hcalls, fun j hj => hbody j (List.mem_cons_of_mem _ hj)⟩
      · exact List.forall_mem_append.mpr ⟨hcalls, hbody⟩
  | @entering body hbody =>
    cases heq
    simp [Instr.inner, Instr.plain] at hi
  | @inside body hbody =>
    have hinner : ∀ j ∈ calls, j.inner = true := fun j hj => inner_of_plain (hcalls j hj)
    cases body with
    | nil =>
      cases heq
      simp [Instr.inner, Instr.plain] at hi
    | cons j body =>
      cases heq
      show Shape true (calls ++ (body ++ handleEventEnd)) ∧
        Shape true (calls ++ (i :: body ++ handleEventEnd))
      rw [← List.append_assoc, ← List.append_assoc]
      refine ⟨.inside ?_, .inside ?_⟩
      · exact List.forall_mem_append.mpr ⟨hinner, fun j hj => hbody j (List.mem_cons_of_mem _ hj)⟩
      · exact List.forall_mem_append.mpr ⟨hinner, hbody⟩
  | leaving =>
    cases heq
    simp [Instr.inner, Instr.plain] at hi

omit [DecidableEq H] in
/-- The thread holds a reference until it is done. -/
theorem Inv.guarded (hs : Inv s) (hcode : s.code ≠ []) :
    (s.bEventHandling = true → .guard ∈ s.refs.holders) ∧ 0 < s.refs.useCount := by
  have hguard := hs.backed .guard rfl
  have hrunning := hs.backed .running rfl
  have hshape := hs.shape
  generalize heq : s.code = c at hguard hrunning hshape hcode
  generalize s.bEventHandling = b at hshape
  cases hshape with
  | idle => exact absurd rfl hcode
  | functor hbody =>
    rw [backed_inner (.inr rfl) fun i hi => inner_of_plain (hbody i hi)] at hrunning
    exact ⟨by simp, SharedPtr.useCount_pos (List.count_pos_iff.mp hrunning.1)⟩
  | entering hbody =>
    have hheld := (backed_inner (.inl rfl) hbody).mp hguard
    exact ⟨by simp, SharedPtr.useCount_pos (List.count_pos_iff.mp hheld.1)⟩
  | inside hbody =>
    have hheld := (backed_inner (.inl rfl) hbody).mp hguard
    have hmem := List.count_pos_iff.mp hheld.1
    exact ⟨fun _ => hmem, SharedPtr.useCount_pos hmem⟩
  | leaving => exact ⟨by simp, SharedPtr.useCount_pos (List.count_pos_iff.mp hguard.1)⟩

/-! ## 4. Every step -/

omit [DecidableEq H] in
/-- A release keeps the invariant when the thread's code allows for it, and what
`m_bEventHandling` stands for is held by another pointer. -/
theorem inv_release {ref : Ref} (htied : t.btied = true)
    (hbacked : ∀ r, r.shared = false → Backed r ((t.refs.release ref).holders.count r) t.code)
    (hshape : Shape t.bEventHandling t.code)
    (hheld : t.bEventHandling = true → .guard ∈ t.refs.holders ∧ .guard ≠ ref)
    (hdestroyed : 0 < t.refs.useCount → t.destroyed = false)
    (hcrashed : t.crashed ≠ some .eventHandling) : Inv (t.release ref) := by
  unfold State.release
  dsimp only
  split
  · next hlast =>
    have hoff : t.bEventHandling = false := by
      by_contra hon
      obtain ⟨hmem, hne⟩ := hheld (by simpa using hon)
      exact SharedPtr.not_mem hlast.2 (SharedPtr.mem_release hmem hne)
    rw [State.destroy, if_neg (by simp [hoff])]
    refine ⟨htied, hbacked, hshape, fun hpos => ?_, hcrashed⟩
    exact absurd hlast.2 (Nat.ne_of_gt hpos)
  · refine ⟨htied, hbacked, hshape, fun hpos => hdestroyed ?_, hcrashed⟩
    unfold SharedPtr.release at hpos
    split at hpos
    · next hmem => exact SharedPtr.useCount_pos hmem
    · exact hpos

omit [DecidableEq H] in
theorem inv_copy {ref : Ref} (htied : t.btied = true)
    (hbacked : ∀ r, r.shared = false → Backed r ((t.refs.copy ref).holders.count r) t.code)
    (hshape : Shape t.bEventHandling t.code) (hdestroyed : t.destroyed = false)
    (hcrashed : t.crashed ≠ some .eventHandling) : Inv (t.copy ref) :=
  ⟨htied, hbacked, hshape, fun _ => hdestroyed, hcrashed⟩

omit [DecidableEq H] in
/-- A call of a function of the connection. -/
theorem Inv.run {inBaseLoop : Bool} {f : TcpConnection H → Except Fault (TcpConnection H)}
    (hs : Inv s) (hpush : ∀ us, Shape s.bEventHandling (callsCode inBaseLoop us ++ s.code)) :
    Inv (s.run inBaseLoop f) := by
  unfold State.run
  split
  · exact ⟨hs.tied, hs.backed, hs.shape, hs.destroyed, by simp⟩
  · refine ⟨hs.tied, fun r hr => ?_, hpush _, hs.destroyed, hs.crashed⟩
    exact (backed_calls inBaseLoop hr _).mpr (hs.backed r hr)

omit [DecidableEq H] in
theorem Inv.execCopy {ref : Ref} (hs : Inv s) (hcode : s.code = .copy ref :: code) :
    Inv (State.copy { s with code := code } ref) := by
  obtain ⟨-, halive⟩ := hs.guarded (by simp [hcode])
  have hshape : Shape s.bEventHandling (.copy ref :: code) := hcode ▸ hs.shape
  refine inv_copy hs.tied (fun r hr => ?_) (hshape.tail (by simp) (by simp))
    (hs.destroyed halive) hs.crashed
  have hrest : Backed r (s.refs.holders.count r) (.copy ref :: code) := hcode ▸ hs.backed r hr
  rw [Backed] at hrest
  rw [SharedPtr.count_copy]
  by_cases href : ref = r
  · simpa [href] using hrest
  · simpa [href] using hrest

omit [DecidableEq H] in
theorem Inv.execRelease {ref : Ref} (hs : Inv s) (hcode : s.code = .release ref :: code) :
    Inv (State.release { s with code := code } ref) := by
  obtain ⟨hguard, -⟩ := hs.guarded (by simp [hcode])
  have hshape : Shape s.bEventHandling (.release ref :: code) := hcode ▸ hs.shape
  have hrest : ∀ r, r.shared = false → Backed r ((s.refs.release ref).holders.count r) code := by
    intro r hr
    have h : Backed r (s.refs.holders.count r) (.release ref :: code) := hcode ▸ hs.backed r hr
    rw [Backed] at h
    rw [SharedPtr.count_release]
    by_cases href : ref = r
    · simpa [href] using (if_pos href ▸ h).2
    · simpa [href] using h
  rcases hshape.next with ⟨hinner, h⟩ | ⟨h, -⟩ | ⟨h, -⟩ | ⟨-, hoff, rfl⟩
  · refine inv_release hs.tied hrest h (fun hon => ⟨hguard hon, ?_⟩) hs.destroyed hs.crashed
    rintro rfl
    simp [Instr.inner, Instr.plain] at hinner
  · cases h
  · cases h
  · -- the outermost pointer goes, with the flag off
    refine inv_release hs.tied hrest ?_ (fun hon => ?_) hs.destroyed hs.crashed
    · exact hoff ▸ .idle
    · exact absurd (hoff.symm.trans hon) (by decide)

omit [DecidableEq H] in
theorem Inv.execErase (hs : Inv s) (hcode : s.code = .erase :: code) :
    Inv (if .connections ∈ s.refs.holders then
      State.release { s with code := code } .connections else { s with code := code }) := by
  obtain ⟨hguard, -⟩ := hs.guarded (by simp [hcode])
  have hshape : Shape s.bEventHandling (.erase :: code) := hcode ▸ hs.shape
  have hnext := hshape.tail (by simp) (by simp)
  have hbacked : ∀ r, r.shared = false → Backed r (s.refs.holders.count r) (.erase :: code) :=
    fun r hr => hcode ▸ hs.backed r hr
  split
  · refine inv_release hs.tied (fun r hr => ?_) hnext (fun hon => ⟨hguard hon, by decide⟩)
      hs.destroyed hs.crashed
    rw [SharedPtr.count_release, if_neg (by rintro rfl; cases hr)]
    exact hbacked r hr
  · exact ⟨hs.tied, hbacked, hnext, hs.destroyed, hs.crashed⟩

theorem Inv.exec {inBaseLoop : Bool} {r : Buffer.ReadResult} {w : WriteResult} (hs : Inv s)
    (hne : s.code ≠ []) : Inv (s.exec inBaseLoop r w) := by
  cases hcode : s.code with
  | nil => exact absurd hcode hne
  | cons i code =>
    have hbacked : ∀ r, r.shared = false → Backed r (s.refs.holders.count r) (i :: code) :=
      fun r hr => hcode ▸ hs.backed r hr
    have hshape : Shape s.bEventHandling (i :: code) := hcode ▸ hs.shape
    unfold State.exec
    rw [hcode]
    dsimp only
    cases i with
    | copy ref => exact hs.execCopy hcode
    | release ref => exact hs.execRelease hcode
    | setHandling b =>
      rcases hshape.next with ⟨h, -⟩ | ⟨h, hnext⟩ | ⟨h, hnext⟩ | ⟨h | h, -⟩
      · simp [Instr.inner, Instr.plain] at h
      · cases h
        exact ⟨hs.tied, hbacked, hnext, hs.destroyed, hs.crashed⟩
      · cases h
        exact ⟨hs.tied, hbacked, hnext, hs.destroyed, hs.crashed⟩
      · cases h
      · cases h
    | callback cb =>
      have hnext := hshape.tail (by simp) (by simp)
      refine Inv.run ⟨hs.tied, hbacked, hnext, hs.destroyed, hs.crashed⟩ fun us => ?_
      exact (hshape.push (plain_calls inBaseLoop us) rfl).1
    | user =>
      exact ⟨hs.tied, hbacked, hshape.tail (by simp) (by simp), hs.destroyed, hs.crashed⟩
    | erase => exact hs.execErase hcode

theorem backed_callbacks (cbs : List Handler.Callback) :
    Backed r n (cbs.map .callback ++ code) ↔ Backed r n code := by
  induction cbs with
  | nil => rfl
  | cons cb cbs ih => simpa [Backed] using ih

omit [DecidableEq H] in
theorem Inv.handleEvent {revents : Events} (hs : Inv s) (hidle : s.code = []) :
    Inv (s.handleEvent revents) := by
  unfold State.handleEvent
  rw [if_pos hs.tied]
  split
  · next refs hlock =>
    have halive : 0 < s.refs.useCount := by
      by_contra hzero
      rw [SharedPtr.lock_eq_none.mpr (Nat.eq_zero_of_not_pos hzero)] at hlock
      cases hlock
    cases SharedPtr.lock_eq_some hlock
    have hcode : handleEventCode revents ++ [.release .guard] =
        .setHandling true :: ((Handler.handleEvent revents).map .callback ++ handleEventEnd) := by
      simp [handleEventCode, handleEventEnd]
    have hinner : ∀ i ∈ (Handler.handleEvent revents).map Instr.callback, i.inner = true := by
      intro i hi
      obtain ⟨cb, -, rfl⟩ := List.mem_map.mp hi
      rfl
    have hoff : s.bEventHandling = false := Shape.off (hidle ▸ hs.shape)
    refine ⟨hs.tied, fun r hr => ?_, ?_, fun _ => hs.destroyed halive, hs.crashed⟩
    · have hnone := hs.backed r hr
      rw [hidle, Backed] at hnone
      show Backed r ((s.refs.copy .guard).holders.count r) (handleEventCode revents ++ _)
      rw [SharedPtr.count_copy, hnone, hcode]
      by_cases hg : Ref.guard = r
      · simp [handleEventEnd, Backed, backed_callbacks, hg]
      · simp [handleEventEnd, Backed, backed_callbacks, hg]
    · show Shape s.bEventHandling (handleEventCode revents ++ _)
      rw [hoff, hcode]
      exact .entering hinner
  · exact hs

theorem Inv.runFunctor {inBaseLoop : Bool} {c : Option UserCall} (hs : Inv s) (hidle : s.code = [])
    (halive : 0 < s.refs.useCount) : Inv (s.runFunctor inBaseLoop c) := by
  have hoff : s.bEventHandling = false := Shape.off (hidle ▸ hs.shape)
  have hcount : ∀ r, r.shared = false → s.refs.holders.count r = 0 := by
    intro r hr
    have hnone := hs.backed r hr
    rwa [hidle] at hnone
  have hrunning : ∀ calls : List Instr, (∀ i ∈ calls, i.plain = true) →
      Shape s.bEventHandling (calls ++ [.release .running]) := by
    intro calls hcalls
    rw [hoff]
    exact .functor hcalls
  have hstart : Inv { s.copy .running with code := [.release .running] } := by
    refine ⟨hs.tied, fun r hr => ?_, hrunning [] (by simp),
      fun _ => hs.destroyed halive, hs.crashed⟩
    show Backed r ((s.refs.copy .running).holders.count r) _
    rw [SharedPtr.count_copy, hcount r hr]
    by_cases href : Ref.running = r
    · simp [Backed, href]
    · simp [Backed, href]
  cases c with
  | some c => exact hstart.run fun us => hrunning _ (plain_calls inBaseLoop us)
  | none =>
    refine ⟨hs.tied, fun r hr => ?_, hrunning removeConnectionInLoop (by decide),
      hstart.destroyed, hs.crashed⟩
    have hbacked := hstart.backed r hr
    have hne : Ref.functor .connectionDestroyed ≠ r := by
      rintro rfl
      cases hr
    show Backed r ((s.copy .running).refs.holders.count r)
      [.erase, .copy (.functor .connectionDestroyed), .release .running]
    simpa [Backed, hne] using hbacked

theorem Inv.step {a : Act} {inBaseLoop : Bool} (hs : Inv s) (hg : guard s a) :
    Inv (effect inBaseLoop s a) := by
  obtain ⟨-, hg⟩ := hg
  cases a with
  | handleEvent revents => exact hs.handleEvent hg
  | exec r w => exact hs.exec hg
  | call c =>
    obtain ⟨code, hcode⟩ := List.head?_eq_some_iff.mp hg
    refine hs.run fun us => ?_
    have hshape := hs.shape
    rw [hcode] at hshape ⊢
    exact (hshape.push (plain_calls inBaseLoop us) rfl).2
  | runFunctor c => exact hs.runFunctor hg.1 hg.2
  | copy r =>
    refine inv_copy hs.tied (fun r' hr' => ?_) hs.shape (hs.destroyed hg.2) hs.crashed
    have hne : r ≠ r' := by
      rintro rfl
      exact absurd (hg.1.symm.trans hr') (by decide)
    rw [SharedPtr.count_copy, if_neg hne]
    exact hs.backed r' hr'
  | release r =>
    refine inv_release hs.tied (fun r' hr' => ?_) hs.shape (fun hon => ?_) hs.destroyed hs.crashed
    · rw [SharedPtr.count_release,
        if_neg (by rintro rfl; exact absurd (hg.1.symm.trans hr') (by decide))]
      exact hs.backed r' hr'
    · have hcode : s.code ≠ [] := by
        intro hidle
        exact absurd (hon.symm.trans (Shape.off (hidle ▸ hs.shape))) (by decide)
      refine ⟨(hs.guarded hcode).1 hon, ?_⟩
      rintro rfl
      exact absurd hg.1 (by decide)

omit [DecidableEq H] in
theorem Live.inv (hs : Live s) : Inv s := by
  refine ⟨hs.tied, fun r hr => ?_, ?_, fun _ => hs.destroyed, by simp [hs.crashed]⟩
  · rw [hs.idle, Backed, List.count_eq_zero]
    intro hmem
    exact absurd (hr.symm.trans (hs.shared r hmem)) (by decide)
  · rw [hs.idle, hs.handling]
    exact .idle

/-- When the last reference has gone nothing can happen but dispatches that return. -/
theorem Inv.expired {a : Act} {inBaseLoop : Bool} (hs : Inv s) (hzero : s.refs.useCount = 0)
    (hg : guard s a) : effect inBaseLoop s a = s := by
  have hcode : s.code = [] := by
    by_contra hne
    exact Nat.ne_of_gt (hs.guarded hne).2 hzero
  obtain ⟨-, hg⟩ := hg
  cases a with
  | handleEvent revents =>
    simp only [effect, State.handleEvent, if_pos hs.tied, SharedPtr.lock_eq_none.mpr hzero]
  | exec r w => exact absurd hcode hg
  | call c =>
    rw [hcode] at hg
    cases hg
  | runFunctor c => exact absurd hzero (Nat.ne_of_gt hg.2)
  | copy r => exact absurd hzero (Nat.ne_of_gt hg.2)
  | release r => exact absurd hg.2 (SharedPtr.not_mem hzero)

/-- In every run of dispatches, functors and other threads the connection exists
while `m_bEventHandling` is set, so that `~Handler` never finds it set; and once
the last reference has gone, no callback is made any more. -/
theorem dispatch_keeps_connection {inBaseLoop : Bool} {as : List Act} (hs : Live s)
    (hrun : (machine H inBaseLoop).run s as = some t) :
    (t.bEventHandling = true → 0 < t.refs.useCount ∧ t.destroyed = false) ∧
    t.crashed ≠ some .eventHandling ∧
    ∀ bs cs u, as = bs ++ cs → (machine H inBaseLoop).run s bs = some u →
      u.refs.useCount = 0 → t.made = u.made := by
  have hinv : ∀ {bs u}, (machine H inBaseLoop).run s bs = some u → Inv u := by
    intro bs u hu
    refine Machine.run_invariant (C := fun _ _ => True) (fun v a w hv _ hstep => ?_) hs.inv
      (Machine.along_true _ _) hu
    obtain ⟨hg, rfl⟩ := Machine.guarded_step.mp hstep
    exact hv.step hg
  have ht := hinv hrun
  refine ⟨fun hon => ?_, ht.crashed, ?_⟩
  · have hcode : t.code ≠ [] := by
      intro hidle
      exact absurd (hon.symm.trans (Shape.off (hidle ▸ ht.shape))) (by decide)
    have halive := (ht.guarded hcode).2
    exact ⟨halive, ht.destroyed halive⟩
  · rintro bs cs u rfl hu hzero
    rw [Machine.run_append, hu, Option.bind_some] at hrun
    -- the state stays as it is
    have hsame : Inv t ∧ t = u := by
      refine Machine.run_invariant (I := fun v => Inv v ∧ v = u) (C := fun _ _ => True)
        (fun v a w hv _ hstep => ?_) ⟨hinv hu, rfl⟩ (Machine.along_true _ _) hrun
      obtain ⟨hg, rfl⟩ := Machine.guarded_step.mp hstep
      obtain ⟨hv, rfl⟩ := hv
      exact ⟨hv.step hg, hv.expired hzero hg⟩
    rw [hsame.2]

end

/-- A connection on descriptor 5 that only its user refers to. -/
def established : Except Fault (State Unit) :=
  (TcpConnection.make (EPollPoller.make fun _ => 5) () 5 false).connectionEstablished.map
    fun conn => {
      conn := conn
      refs := ⟨[.user], 1, rfl⟩
      btied := true
      bEventHandling := false
      code := []
      made := []
      destroyed := false
      crashed := none }

/-- The peer hangs up. In the callback the user drops its reference, the server removes
the connection inline, and the functor that this queues is dropped at once. -/
def hangUp : List Act :=
  [.handleEvent EPOLLHUP] ++ List.replicate 3 (.exec (.bytes []) (.wrote 0)) ++ [.release .user] ++
  List.replicate 6 (.exec (.bytes []) (.wrote 0)) ++ [.release (.functor .connectionDestroyed)] ++
  List.replicate 2 (.exec (.bytes []) (.wrote 0))

theorem established_live {s : State Unit} (hs : established = .ok s) : Live s := by
  unfold established at hs
  cases hconn : (TcpConnection.make (EPollPoller.make fun _ => 5) () 5
      false).connectionEstablished with
  | error e =>
    rw [hconn] at hs
    cases hs
  | ok conn =>
    rw [hconn] at hs
    cases hs
    refine ⟨Nat.one_pos, fun r hr => ?_, rfl, rfl, rfl, rfl, rfl⟩
    cases List.mem_singleton.mp hr
    rfl

theorem hangUp_keeps_connection :
    ∃ s t, established = .ok s ∧ (machine Unit true).run s hangUp = some t ∧ t.destroyed = true ∧
      t.made = [.close] ∧ t.crashed ≠ some .eventHandling := by
  have hruns : (established.toOption.bind fun s => (machine Unit true).run s hangUp).map
      (fun t => (t.destroyed, t.made)) = some (true, [.close]) := by
    decide +kernel
  obtain ⟨t, ht, hend⟩ := Option.map_eq_some_iff.mp hruns
  obtain ⟨s, hs, hrun⟩ := Option.bind_eq_some_iff.mp ht
  injection hend with hdestroyed hmade
  replace hs := toOption_eq_some.mp hs
  exact ⟨s, t, hs, hrun, hdestroyed, hmade,
    (dispatch_keeps_connection (established_live hs) hrun).2.1⟩

end

end Dispatch

end NetFrame
