import NetFrame.Basic
import NetFrame.Lib.FdTable
import NetFrame.Lib.Machine
import NetFrame.Lib.Outcome
import Mathlib.Data.Finset.Basic

/-!
# Accepting when the descriptors run out

`Acceptor.cpp`, with `Socket::accept` and `SocketOps::accept`. Where `accept`
fails with `EMFILE` the client stays in the backlog, and the listening socket
stays readable. So an acceptor keeps an idle descriptor, which it closes to
accept the client after all, and opens again once the client is closed.

The kernel has the descriptor table of the process and the backlog of the
listening socket. The table is all that runs out: `accept` and `open` fail with
`EMFILE` exactly when it is full. The clients are numbered as they arrive.

Results:
1. `Inv.handleRead`: a `handleRead` keeps the idle descriptor and settles every
   client that it accepts.
2. `handleRead_full`: on a full table it takes the first client off the backlog.
3. `accept_survives`: this is so in every run.
-/

namespace NetFrame

open Outcome

namespace SocketOps

def EPERM : Int := 1
def EINTR : Int := 4
def EAGAIN : Int := 11
def EMFILE : Int := 24
def EPROTO : Int := 71
def ECONNABORTED : Int := 103

/-- `SocketOps::accept`: the descriptor, or `errno` as the caller finds it. The
`printf` calls leave an arbitrary one, which only these errors put right. -/
def accept (r : Except Int Int) (printfErrno : Int) : Except Int Int :=
  match r with
  | .ok connfd => .ok connfd
  | .error savedErrno =>
    if savedErrno ∈ [EAGAIN, ECONNABORTED, EINTR, EPROTO, EPERM, EMFILE] then .error savedErrno
    else .error printfErrno

theorem accept_error (savedErrno printfErrno : Int) :
    ∃ errno, accept (.error savedErrno) printfErrno = .error errno := by
  unfold accept
  dsimp only
  split
  · exact ⟨_, rfl⟩
  · exact ⟨_, rfl⟩

end SocketOps

namespace Acceptor

open SocketOps (EAGAIN EMFILE)

/-! ## 1. The state -/

/-- What a descriptor stands for. -/
inductive File where
  | client (n : Nat)
  /-- The listening socket. -/
  | listening
  /-- `/dev/null`, opened by the acceptor. -/
  | devNull
  | foreign
  deriving DecidableEq, Repr

def File.client? : File → Option Nat
  | .client n => some n
  | _ => none

structure State where
  fds : FdTable File
  /-- The clients that wait for `accept`. -/
  backlog : List Nat
  acceptSocket : Int
  idleFd : Int
  /-- `m_newConnectionCb` is set. -/
  newConnectionCb : Bool
  /-- The descriptors that belong to other parts of the process. -/
  others : Finset Int
  /-- How many clients have arrived. -/
  clients : Nat
  /-- The clients that `accept` has returned. -/
  accepted : List Nat
  /-- The clients whose descriptors went to the new-connection callback. -/
  passed : List Nat
  /-- The clients whose descriptors the acceptor has closed. -/
  closed : List Nat

/-- What the calls of a `handleRead` come upon. -/
structure Choice where
  /-- The errno of the first `accept`, if its client has gone. -/
  gone : Option Int
  printfErrno : Int
  /-- The errno of the second `accept`, if its client has gone. -/
  gone₂ : Option Int
  deriving DecidableEq

namespace State

/-! ## 2. The functions -/

/-- The client that the descriptor stands for. -/
def clientOf (s : State) (fd : Int) : Option Nat := (s.fds.find fd).bind File.client?

/-- `accept` of the kernel: a new descriptor, or an errno. `gone` is the errno
where the next client has gone and the kernel finds it out now. -/
def accept (s : State) (gone : Option Int) : State × Except Int Int :=
  match s.fds.newFd, s.backlog, gone with
  | none, _, _ => (s, .error EMFILE)
  | some _, [], _ => (s, .error EAGAIN)
  | some _, _ :: rest, some errno => ({ s with backlog := rest }, .error errno)
  | some fd, n :: rest, none =>
    ({ s with
      fds := s.fds.add fd (.client n)
      backlog := rest
      accepted := s.accepted ++ [n] }, .ok fd)

/-- `close(fd)` by the acceptor. -/
def close (s : State) (fd : Int) : State :=
  { s with fds := s.fds.close fd, closed := s.closed ++ (s.clientOf fd).toList }

/-- `m_newConnectionCb(connfd, peerAddr)`: the descriptor belongs to the callback. -/
def pass (s : State) (connfd : Int) : State :=
  { s with others := insert connfd s.others, passed := s.passed ++ (s.clientOf connfd).toList }

/-- `m_idleFd = open("/dev/null")`. -/
def openIdle (s : State) : State :=
  { s with fds := (s.fds.openFile .devNull).1, idleFd := (s.fds.openFile .devNull).2 }

/-- `m_idleFd = accept(..)`. -/
def acceptIdle (s : State) (gone : Option Int) : State :=
  match s.accept gone with
  | (s', .ok fd) => { s' with idleFd := fd }
  | (s', .error _) => { s' with idleFd := -1 }

/-- The four calls after `EMFILE`. -/
def recover (s : State) (gone : Option Int) : State :=
  let s₁ := s.close s.idleFd
  let s₂ := s₁.acceptIdle gone
  let s₃ := s₂.close s₂.idleFd
  s₃.openIdle

def handleRead (s : State) (c : Choice) : State :=
  match s.accept c.gone with
  | (s₁, r) =>
    match SocketOps.accept r c.printfErrno with
    | .ok connfd => if s₁.newConnectionCb then s₁.pass connfd else s₁.close connfd
    | .error errno => if errno = EMFILE then s₁.recover c.gone₂ else s₁

end State

/-- The constructor, in a process with the descriptors `fds`. -/
def ctor (fds : FdTable File) : Except Fault State := do
  let (fds₁, acceptSocket) := fds.openFile .listening
  let (fds₂, idleFd) := fds₁.openFile .devNull
  check (0 ≤ idleFd) "m_idleFd >= 0"
  return {
    fds := fds₂
    backlog := []
    acceptSocket := acceptSocket
    idleFd := idleFd
    newConnectionCb := false
    others := fds.files.keys.toFinset
    clients := 0
    accepted := []
    passed := []
    closed := [] }

/-! ## 3. Runs -/

inductive Act where
  | handleRead (c : Choice)
  | setNewConnectionCallback (set : Bool)
  /-- A client connects. -/
  | arrive
  /-- A client goes away, and the kernel takes it off the backlog. -/
  | abort (n : Nat)
  /-- Another part of the process opens a descriptor. -/
  | openOther
  /-- Another part of the process closes one of its descriptors. -/
  | closeOther (fd : Int)
  deriving DecidableEq

/-- `accept` fails with `EMFILE` for a full table only, and the others close their
own descriptors only. -/
def guard (s : State) : Act → Prop
  | .handleRead c => c.gone ≠ some EMFILE ∧ c.gone₂ ≠ some EMFILE
  | .closeOther fd => fd ∈ s.others
  | _ => True

instance (s : State) : ∀ a, Decidable (guard s a)
  | .handleRead c => inferInstanceAs (Decidable (c.gone ≠ some EMFILE ∧ c.gone₂ ≠ some EMFILE))
  | .closeOther fd => inferInstanceAs (Decidable (fd ∈ s.others))
  | .setNewConnectionCallback _ | .arrive | .abort _ | .openOther => .isTrue trivial

def effect (s : State) : Act → State
  | .handleRead c => s.handleRead c
  | .setNewConnectionCallback set => { s with newConnectionCb := set }
  | .arrive => { s with backlog := s.backlog ++ [s.clients], clients := s.clients + 1 }
  | .abort n => { s with backlog := s.backlog.erase n }
  | .openOther =>
    match s.fds.newFd with
    | some fd => { s with fds := s.fds.add fd .foreign, others := insert fd s.others }
    | none => s
  | .closeOther fd => { s with fds := s.fds.close fd, others := s.others.erase fd }

/-- The acceptor is made in a process with any open descriptors. -/
def Started (s : State) : Prop :=
  ∃ fds : FdTable File, (∀ fd f, fds.find fd = some f → 0 ≤ fd ∧ f = .foreign) ∧ ctor fds = .ok s

def machine : Trans.Machine State Act := Trans.Machine.guarded Started guard effect

/-! ## 4. The invariant -/

section

variable {s t : State} {fd : Int} {n : Nat} {r : Except Int Int}

/-- The descriptors and the clients, the idle descriptor apart. -/
structure Core (s : State) : Prop where
  nonneg : ∀ fd f, s.fds.find fd = some f → 0 ≤ fd
  others : ∀ fd ∈ s.others, ∃ f, s.fds.find fd = some f ∧ f ≠ .devNull ∧ f ≠ .listening
  listening : s.fds.find s.acceptSocket = some .listening
  arrived : ∀ n ∈ s.accepted ++ s.backlog, n < s.clients
  nodup : (s.accepted ++ s.backlog).Nodup

/-- Every client that was accepted has been passed or closed, those in `held`
apart. -/
def Settled (s : State) (held : List Nat) : Prop :=
  ∀ n, s.passed.count n + s.closed.count n + held.count n = s.accepted.count n

structure Inv (s : State) : Prop where
  core : Core s
  idle : s.fds.find s.idleFd = some .devNull
  range : s.fds.InRange s.idleFd
  settled : Settled s []

/-- What `accept` does. -/
inductive Accepts (s : State) : Option Int → State → Except Int Int → Prop where
  | full (gone : Option Int) (hfull : s.fds.newFd = none) : Accepts s gone s (.error EMFILE)
  | empty (gone : Option Int) (hempty : s.backlog = []) : Accepts s gone s (.error EAGAIN)
  | gone {n : Nat} {rest : List Nat} (errno : Int) (hbacklog : s.backlog = n :: rest) :
      Accepts s (some errno) { s with backlog := rest } (.error errno)
  | client {fd : Int} {n : Nat} {rest : List Nat} (hnew : s.fds.newFd = some fd)
      (hbacklog : s.backlog = n :: rest) :
      Accepts s none { s with
        fds := s.fds.add fd (.client n)
        backlog := rest
        accepted := s.accepted ++ [n] } (.ok fd)

theorem accept_accepts (s : State) (gone : Option Int) :
    Accepts s gone (s.accept gone).1 (s.accept gone).2 := by
  unfold State.accept
  split
  · next hfull => exact .full _ hfull
  · next hempty => exact .empty _ hempty
  · next hbacklog => exact .gone _ hbacklog
  · next hnew hbacklog => exact .client hnew hbacklog

theorem Core.gone {rest : List Nat} (hs : Core s) (hbacklog : s.backlog = n :: rest) :
    Core { s with backlog := rest } := by
  have hsub : (s.accepted ++ rest).Sublist (s.accepted ++ s.backlog) := by
    rw [hbacklog]
    exact (List.sublist_cons_self n rest).append_left s.accepted
  exact ⟨hs.nonneg, hs.others, hs.listening, fun m hm => hs.arrived m (hsub.mem hm),
    hsub.nodup hs.nodup⟩

theorem Core.setIdle (hs : Core s) (fd : Int) : Core { s with idleFd := fd } :=
  ⟨hs.nonneg, hs.others, hs.listening, hs.arrived, hs.nodup⟩

/-- A descriptor that was free. -/
theorem Core.add {f : File} (hs : Core s) (hnew : s.fds.newFd = some fd) :
    Core { s with fds := s.fds.add fd f } := by
  obtain ⟨hfree, hrange⟩ := FdTable.newFd_some hnew
  have hkept : ∀ {fd' f'}, s.fds.find fd' = some f' → (s.fds.add fd f).find fd' = some f' := by
    intro fd' f' hfind
    rw [FdTable.find_add, if_neg, hfind]
    rintro rfl
    rw [hfree] at hfind
    cases hfind
  refine ⟨fun fd' f' hfind => ?_, fun fd' hfd' => ?_, hkept hs.listening, hs.arrived, hs.nodup⟩
  · rw [FdTable.find_add] at hfind
    split at hfind
    · next heq => exact heq ▸ hrange.1
    · exact hs.nonneg fd' f' hfind
  · obtain ⟨f', hfind, hkind⟩ := hs.others fd' hfd'
    exact ⟨f', hkept hfind, hkind⟩

/-- A descriptor of the acceptor is closed. -/
theorem Core.close (hs : Core s) (hother : fd ∉ s.others) (hsocket : fd ≠ s.acceptSocket) :
    Core (s.close fd) := by
  refine ⟨fun fd' f' hfind => ?_, fun fd' hfd' => ?_, ?_, hs.arrived, hs.nodup⟩
  · rw [State.close, FdTable.find_close] at hfind
    split at hfind
    · cases hfind
    · exact hs.nonneg fd' f' hfind
  · obtain ⟨f', hfind, hkind⟩ := hs.others fd' hfd'
    refine ⟨f', ?_, hkind⟩
    rw [State.close, FdTable.find_close, if_neg, hfind]
    rintro rfl
    exact hother hfd'
  · rw [State.close, FdTable.find_close, if_neg hsocket.symm]
    exact hs.listening

theorem Core.closed_fd (hs : Core s) (hclosed : s.fds.find fd = none) :
    fd ∉ s.others ∧ fd ≠ s.acceptSocket := by
  constructor
  · intro hother
    obtain ⟨f, hfind, -⟩ := hs.others fd hother
    rw [hclosed] at hfind
    cases hfind
  · rintro rfl
    rw [hs.listening] at hclosed
    cases hclosed

theorem Core.find_neg (hs : Core s) : s.fds.find (-1) = none := by
  refine Option.eq_none_iff_forall_ne_some.mpr fun f hfind => ?_
  have hnonneg := hs.nonneg (-1) f hfind
  omega

theorem Core.accepts {gone : Option Int} (hs : Core s) (h : Accepts s gone t r) : Core t := by
  cases h with
  | full _ hfull => exact hs
  | empty _ hempty => exact hs
  | gone errno hbacklog => exact hs.gone hbacklog
  | @client fd n rest hnew hbacklog =>
    have hadded : Core { s with fds := s.fds.add fd (.client n) } := hs.add hnew
    have heq : s.accepted ++ [n] ++ rest = s.accepted ++ s.backlog := by
      rw [List.append_assoc, hbacklog]
      rfl
    exact ⟨hadded.nonneg, hadded.others, hadded.listening, heq ▸ hs.arrived, heq ▸ hs.nodup⟩

theorem Settled.close (h : Settled s (s.clientOf fd).toList) : Settled (s.close fd) [] := by
  intro n
  show s.passed.count n + (s.closed ++ (s.clientOf fd).toList).count n = s.accepted.count n
  rw [List.count_append, ← h n, Nat.add_assoc]

theorem Settled.pass (h : Settled s (s.clientOf fd).toList) : Settled (s.pass fd) [] := by
  intro n
  show (s.passed ++ (s.clientOf fd).toList).count n + s.closed.count n = s.accepted.count n
  rw [List.count_append, ← h n, Nat.add_right_comm]

theorem Settled.accept {t : State} (h : Settled s []) (hpassed : t.passed = s.passed)
    (hclosed : t.closed = s.closed) (haccepted : t.accepted = s.accepted ++ [n]) :
    Settled t [n] := by
  intro m
  rw [hpassed, hclosed, haccepted, List.count_append, ← h m]
  rfl

theorem Inv.idle_alone (hs : Inv s) : s.idleFd ∉ s.others ∧ s.idleFd ≠ s.acceptSocket := by
  constructor
  · intro hother
    obtain ⟨f, hfind, hkind, -⟩ := hs.core.others _ hother
    rw [hs.idle] at hfind
    exact hkind (Option.some.inj hfind).symm
  · intro heq
    have hlistening := hs.core.listening
    rw [← heq, hs.idle] at hlistening
    cases hlistening

theorem Core.openIdle (hs : Core s) (hsettled : Settled s [])
    (hroom : ∃ fd, s.fds.newFd = some fd) : Inv s.openIdle := by
  obtain ⟨fd, hnew⟩ := hroom
  have hopen : s.openIdle = { s with fds := s.fds.add fd .devNull, idleFd := fd } := by
    simp [State.openIdle, FdTable.openFile, hnew]
  have hcore : Core { s with fds := s.fds.add fd .devNull } := hs.add hnew
  rw [hopen]
  refine ⟨⟨hcore.nonneg, hcore.others, hcore.listening, hs.arrived, hs.nodup⟩, ?_,
    (FdTable.newFd_some hnew).2, hsettled⟩
  rw [FdTable.find_add, if_pos rfl]

theorem Accepts.error {gone : Option Int} {errno : Int} (h : Accepts s gone t (.error errno)) :
    ∃ rest, t = { s with backlog := rest } ∧ (s.fds.newFd ≠ none → rest = s.backlog.tail) := by
  cases h with
  | full _ hfull => exact ⟨s.backlog, rfl, fun hroom => absurd hfull hroom⟩
  | empty _ hempty => exact ⟨s.backlog, rfl, fun _ => by rw [hempty]; rfl⟩
  | gone _ hbacklog => exact ⟨_, rfl, fun _ => by rw [hbacklog]; rfl⟩

/-- `t` is `s` with the next client accepted at `fd`, which belongs to nobody yet. -/
structure Taken (s t : State) (fd : Int) (n : Nat) : Prop where
  core : Core t
  client : t.fds.find fd = some (.client n)
  alone : fd ∉ t.others ∧ fd ≠ t.acceptSocket
  free : s.fds.find fd = none
  range : t.fds.InRange fd
  limit : t.fds.limit = s.fds.limit
  kept : ∀ fd', fd' ≠ fd → t.fds.find fd' = s.fds.find fd'
  idleFd : t.idleFd = s.idleFd
  backlog : t.backlog = s.backlog.tail
  settled : Settled t [n]

theorem Taken.clientOf (h : Taken s t fd n) : (t.clientOf fd).toList = [n] := by
  rw [State.clientOf, h.client]
  rfl

theorem Accepts.ok {gone : Option Int} (hs : Core s) (hsettled : Settled s [])
    (h : Accepts s gone t (.ok fd)) : ∃ n, Taken s t fd n := by
  have hcore := hs.accepts h
  cases h with
  | @client _ n rest hnew hbacklog =>
    obtain ⟨hfree, hrange⟩ := FdTable.newFd_some hnew
    refine ⟨n, hcore, ?_, hs.closed_fd hfree, hfree, hrange, rfl, fun fd' hne => ?_, rfl, ?_,
      hsettled.accept rfl rfl rfl⟩
    · rw [FdTable.find_add, if_pos rfl]
    · rw [FdTable.find_add, if_neg hne]
    · rw [hbacklog]
      rfl

/-- The second `accept` and `close` of the recovery: a client that is accepted is
closed, and there is room again. -/
theorem Core.acceptIdle (hs : Core s) (hsettled : Settled s [])
    (hroom : ∃ fd, s.fds.newFd = some fd) (gone : Option Int) :
    Core ((s.acceptIdle gone).close (s.acceptIdle gone).idleFd) ∧
      Settled ((s.acceptIdle gone).close (s.acceptIdle gone).idleFd) [] ∧
      (∃ fd, ((s.acceptIdle gone).close (s.acceptIdle gone).idleFd).fds.newFd = some fd) ∧
      (s.acceptIdle gone).backlog = s.backlog.tail := by
  have haccepts := accept_accepts s gone
  unfold State.acceptIdle
  obtain ⟨fd, hnew⟩ := hroom
  generalize s.accept gone = p at haccepts ⊢
  obtain ⟨t, errno | fd'⟩ := p
  · obtain ⟨rest, rfl, htail⟩ := haccepts.error
    have hcore := (hs.accepts haccepts).setIdle (-1)
    obtain ⟨hother, hsocket⟩ := hcore.closed_fd hcore.find_neg
    have hclient : s.clientOf (-1) = none := by
      rw [State.clientOf, hs.find_neg]
      rfl
    refine ⟨hcore.close hother hsocket, Settled.close ?_, ?_, htail (by simp [hnew])⟩
    · show Settled s (s.clientOf (-1)).toList
      rwa [hclient]
    · obtain ⟨hfree, hrange⟩ := FdTable.newFd_some hnew
      have hrange' : (s.fds.close (-1)).InRange fd := hrange
      have hfree' : (s.fds.close (-1)).find fd = none := by
        rw [FdTable.find_close, hfree]
        exact ite_self none
      exact FdTable.exists_newFd hrange' hfree'
  · obtain ⟨n, htaken⟩ := haccepts.ok hs hsettled
    have hsettled' : Settled t (t.clientOf fd').toList := htaken.clientOf ▸ htaken.settled
    exact ⟨(htaken.core.setIdle fd').close htaken.alone.1 htaken.alone.2, Settled.close hsettled',
      FdTable.newFd_close htaken.range, htaken.backlog⟩

theorem Inv.recover (hs : Inv s) (gone : Option Int) :
    Inv (s.recover gone) ∧ (s.recover gone).backlog = s.backlog.tail := by
  obtain ⟨hother, hsocket⟩ := hs.idle_alone
  have hfile : s.clientOf s.idleFd = none := by
    rw [State.clientOf, hs.idle]
    rfl
  have hsettled : Settled (s.close s.idleFd) [] := by
    refine Settled.close ?_
    rw [hfile]
    exact hs.settled
  have hroom : ∃ fd, (s.close s.idleFd).fds.newFd = some fd := FdTable.newFd_close hs.range
  obtain ⟨hcore, hsettled', hroom', htail⟩ :=
    (hs.core.close hother hsocket).acceptIdle hsettled hroom gone
  exact ⟨hcore.openIdle hsettled' hroom', htail⟩

/-- The callback gets a descriptor of a client. -/
theorem Core.pass (hs : Core s) (hclient : s.fds.find fd = some (.client n)) :
    Core (s.pass fd) := by
  refine ⟨hs.nonneg, fun fd' hfd' => ?_, hs.listening, hs.arrived, hs.nodup⟩
  rcases Finset.mem_insert.mp hfd' with rfl | hold
  · exact ⟨.client n, hclient, File.noConfusion, File.noConfusion⟩
  · exact hs.others fd' hold

/-- The descriptor of an accepted client is passed or closed. -/
theorem Accepts.settle {gone : Option Int} (hs : Inv s) (h : Accepts s gone t (.ok fd)) :
    Inv (t.pass fd) ∧ Inv (t.close fd) := by
  obtain ⟨n, htaken⟩ := h.ok hs.core hs.settled
  have hne : t.idleFd ≠ fd := by
    intro heq
    have hfree := htaken.free
    rw [← heq, htaken.idleFd, hs.idle] at hfree
    cases hfree
  have hdev : t.fds.find t.idleFd = some .devNull := by
    rw [htaken.kept _ hne, htaken.idleFd]
    exact hs.idle
  have hrange : t.fds.InRange t.idleFd := by
    unfold FdTable.InRange
    rw [htaken.limit, htaken.idleFd]
    exact hs.range
  have hsettled : Settled t (t.clientOf fd).toList := htaken.clientOf ▸ htaken.settled
  constructor
  · exact ⟨htaken.core.pass htaken.client, hdev, hrange, Settled.pass hsettled⟩
  · refine ⟨htaken.core.close htaken.alone.1 htaken.alone.2, ?_, hrange, Settled.close hsettled⟩
    rw [State.close, FdTable.find_close, if_neg hne]
    exact hdev

/-- A `handleRead` keeps the invariant. -/
theorem Inv.handleRead (hs : Inv s) (c : Choice) : Inv (s.handleRead c) := by
  have haccepts := accept_accepts s c.gone
  unfold State.handleRead
  generalize s.accept c.gone = p at haccepts ⊢
  obtain ⟨t, errno | fd⟩ := p
  · obtain ⟨rest, rfl, -⟩ := haccepts.error
    have ht : Inv { s with backlog := rest } :=
      ⟨hs.core.accepts haccepts, hs.idle, hs.range, hs.settled⟩
    obtain ⟨errno', herrno⟩ := SocketOps.accept_error errno c.printfErrno
    dsimp only
    rw [herrno]
    dsimp only
    split
    · exact (ht.recover _).1
    · exact ht
  · obtain ⟨hpass, hclose⟩ := haccepts.settle hs
    unfold SocketOps.accept
    dsimp only
    split
    · exact hpass
    · exact hclose

/-- Where the table is full, the first client is off the backlog afterwards. -/
theorem handleRead_full (hs : Inv s) (hfull : s.fds.newFd = none) (c : Choice) :
    (s.handleRead c).backlog = s.backlog.tail := by
  have haccept : s.accept c.gone = (s, .error EMFILE) := by
    unfold State.accept
    rw [hfull]
  have hrecover : s.handleRead c = s.recover c.gone₂ := by
    unfold State.handleRead
    rw [haccept]
    rfl
  rw [hrecover]
  exact (hs.recover c.gone₂).2

/-! ## 5. Every run -/

/-- The acceptor has its socket. -/
theorem Core.socket {fds : FdTable File}
    (hfds : ∀ fd f, fds.find fd = some f → 0 ≤ fd ∧ f = .foreign) (hnew : fds.newFd = some fd)
    (s : State) (haccepted : s.accepted = []) :
    Core { s with
      fds := fds.add fd .listening
      acceptSocket := fd
      others := fds.files.keys.toFinset
      backlog := [] } := by
  obtain ⟨hfree, hrange⟩ := FdTable.newFd_some hnew
  refine ⟨fun fd' f hfind => ?_, fun fd' hfd' => ?_, ?_, ?_, ?_⟩
  · rw [FdTable.find_add] at hfind
    split at hfind
    · next heq => exact heq ▸ hrange.1
    · exact (hfds fd' f hfind).1
  · obtain ⟨f, hfind⟩ := Table.mem_keys_iff.mp (List.mem_toFinset.mp hfd')
    replace hfind : fds.find fd' = some f := hfind
    obtain ⟨-, rfl⟩ := hfds fd' f hfind
    refine ⟨.foreign, ?_, File.noConfusion, File.noConfusion⟩
    rw [FdTable.find_add, if_neg, hfind]
    rintro rfl
    rw [hfree] at hfind
    cases hfind
  · rw [FdTable.find_add, if_pos rfl]
  · simp [haccepted]
  · simp [haccepted]

theorem Inv.started (h : Started s) : Inv s := by
  obtain ⟨fds, hfds, hctor⟩ := h
  unfold ctor at hctor
  dsimp only at hctor
  obtain ⟨hassert, heq⟩ := check_bind_ok.mp hctor
  cases hsocket : fds.newFd with
  | none =>
    -- where there is no room for the socket, there is none for the idle descriptor
    simp [FdTable.openFile, hsocket] at hassert
  | some sockfd =>
    have hfds₁ : fds.openFile .listening = (fds.add sockfd .listening, sockfd) := by
      simp [FdTable.openFile, hsocket]
    rw [hfds₁] at hassert heq
    cases heq
    have hroom : ∃ fd, (fds.add sockfd .listening).newFd = some fd := by
      refine Option.ne_none_iff_exists'.mp fun hnone => ?_
      simp [FdTable.openFile, hnone] at hassert
    let s₁ : State := ⟨fds.add sockfd .listening, [], sockfd, -1, false, fds.files.keys.toFinset,
      0, [], [], []⟩
    have hcore : Core s₁ := Core.socket hfds hsocket s₁ rfl
    exact hcore.openIdle (fun n => rfl) hroom

theorem Core.arrive (hs : Core s) :
    Core { s with backlog := s.backlog ++ [s.clients], clients := s.clients + 1 } := by
  refine ⟨hs.nonneg, hs.others, hs.listening, fun n hn => ?_, ?_⟩
  · rw [← List.append_assoc] at hn
    rcases List.mem_append.mp hn with hold | hnew
    · exact Nat.lt_succ_of_lt (hs.arrived n hold)
    · cases List.mem_singleton.mp hnew
      exact Nat.lt_succ_self _
  · rw [← List.append_assoc, ← List.concat_eq_append, List.nodup_concat]
    exact ⟨fun hmem => Nat.lt_irrefl _ (hs.arrived _ hmem), hs.nodup⟩

theorem Core.abort (hs : Core s) (n : Nat) : Core { s with backlog := s.backlog.erase n } := by
  have hsub : (s.accepted ++ s.backlog.erase n).Sublist (s.accepted ++ s.backlog) :=
    (List.erase_sublist).append_left s.accepted
  exact ⟨hs.nonneg, hs.others, hs.listening, fun m hm => hs.arrived m (hsub.mem hm),
    hsub.nodup hs.nodup⟩

theorem Core.openOther (hs : Core s) (hnew : s.fds.newFd = some fd) :
    Core { s with fds := s.fds.add fd .foreign, others := insert fd s.others } := by
  have hadded : Core { s with fds := s.fds.add fd .foreign } := hs.add hnew
  refine ⟨hadded.nonneg, fun fd' hfd' => ?_, hadded.listening, hs.arrived, hs.nodup⟩
  rcases Finset.mem_insert.mp hfd' with rfl | hold
  · refine ⟨.foreign, ?_, File.noConfusion, File.noConfusion⟩
    rw [FdTable.find_add, if_pos rfl]
  · exact hadded.others fd' hold

theorem Core.closeOther (hs : Core s) (hother : fd ∈ s.others) :
    Core { s with fds := s.fds.close fd, others := s.others.erase fd } := by
  have hsocket : s.acceptSocket ≠ fd := by
    rintro rfl
    obtain ⟨f, hfind, -, hkind⟩ := hs.others _ hother
    rw [hs.listening] at hfind
    exact hkind (Option.some.inj hfind).symm
  refine ⟨fun fd' f hfind => ?_, fun fd' hfd' => ?_, ?_, hs.arrived, hs.nodup⟩
  · rw [FdTable.find_close] at hfind
    split at hfind
    · cases hfind
    · exact hs.nonneg fd' f hfind
  · obtain ⟨hne, hold⟩ := Finset.mem_erase.mp hfd'
    obtain ⟨f, hfind, hkind⟩ := hs.others fd' hold
    refine ⟨f, ?_, hkind⟩
    rw [FdTable.find_close, if_neg hne, hfind]
  · rw [FdTable.find_close, if_neg hsocket]
    exact hs.listening

theorem Inv.step {a : Act} (hs : Inv s) (h : machine.step s a = some t) : Inv t := by
  obtain ⟨hg, rfl⟩ := Trans.Machine.guarded_step.mp h
  cases a with
  | handleRead c => exact hs.handleRead c
  | setNewConnectionCallback set =>
    exact ⟨⟨hs.core.nonneg, hs.core.others, hs.core.listening, hs.core.arrived, hs.core.nodup⟩,
      hs.idle, hs.range, hs.settled⟩
  | arrive => exact ⟨hs.core.arrive, hs.idle, hs.range, hs.settled⟩
  | abort n => exact ⟨hs.core.abort n, hs.idle, hs.range, hs.settled⟩
  | openOther =>
    unfold effect
    dsimp only
    split
    · next fd hnew =>
      have hne : s.idleFd ≠ fd := by
        intro heq
        have hfree := (FdTable.newFd_some hnew).1
        rw [← heq, hs.idle] at hfree
        cases hfree
      refine ⟨hs.core.openOther hnew, ?_, hs.range, hs.settled⟩
      rw [FdTable.find_add, if_neg hne]
      exact hs.idle
    · exact hs
  | closeOther fd =>
    have hne : s.idleFd ≠ fd := by
      rintro rfl
      exact hs.idle_alone.1 hg
    refine ⟨hs.core.closeOther hg, ?_, hs.range, hs.settled⟩
    show (s.fds.close fd).find s.idleFd = _
    rw [FdTable.find_close, if_neg hne]
    exact hs.idle

/-- In every state of every run the idle descriptor is open and the acceptor's
alone, and each client that was accepted has been passed to the callback or closed,
once; and where a `handleRead` meets a full table, a client that waits is off the
backlog. -/
theorem accept_survives {s₀ : State} {as : List Act} (hinit : machine.init s₀)
    (hrun : machine.run s₀ as = some s) :
    s.fds.find s.idleFd = some .devNull ∧ s.idleFd ∉ s.others ∧ s.idleFd ≠ s.acceptSocket ∧
    s.accepted.Nodup ∧ (s.passed ++ s.closed).Perm s.accepted ∧
    ∀ c t, machine.step s (.handleRead c) = some t → s.fds.newFd = none → s.backlog ≠ [] →
      s.backlog.length = t.backlog.length + 1 := by
  have hs : Inv s := Trans.Machine.reachable_invariant (I := Inv) (fun _ h => .started h)
    (fun _ _ _ hu hv => hu.step hv) ⟨s₀, as, hinit, hrun⟩
  refine ⟨hs.idle, hs.idle_alone.1, hs.idle_alone.2, (List.nodup_append.mp hs.core.nodup).1, ?_,
    fun c t hstep hfull hbacklog => ?_⟩
  · refine List.perm_iff_count.mpr fun n => ?_
    rw [List.count_append]
    exact hs.settled n
  · obtain ⟨-, rfl⟩ := Trans.Machine.guarded_step.mp hstep
    show _ = (s.handleRead c).backlog.length + 1
    rw [handleRead_full hs hfull, List.length_tail]
    exact (Nat.sub_add_cancel (List.length_pos_iff.mpr hbacklog)).symm

/-- A process with four descriptors, of which two are in use. -/
def fourFds : FdTable File := ⟨4, ((∅ : Table Int File).insert 0 .foreign).insert 1 .foreign⟩

/-- The clients 0 and 2 come upon a full table, and 2 has gone. -/
def exhausted : List Act :=
  [.setNewConnectionCallback true, .arrive, .handleRead ⟨none, 0, none⟩,
    .closeOther 1, .arrive, .handleRead ⟨none, 0, none⟩,
    .arrive, .arrive, .handleRead ⟨none, 0, some SocketOps.ECONNABORTED⟩]

theorem exhausted_survives : ∃ s₀ s, machine.init s₀ ∧ machine.run s₀ exhausted = some s ∧
    s.passed = [1] ∧ s.closed = [0] ∧ s.accepted.Perm [1, 0] ∧
    s.fds.find s.idleFd = some .devNull ∧ s.backlog = [3] := by
  have hinit : ∀ fd f, fourFds.find fd = some f → 0 ≤ fd ∧ f = .foreign := by
    intro fd f hfind
    unfold fourFds FdTable.find at hfind
    rw [Table.find_insert, Table.find_insert, Table.find_empty] at hfind
    split_ifs at hfind with h₁ h₀
    · exact ⟨by omega, (Option.some.inj hfind).symm⟩
    · exact ⟨by omega, (Option.some.inj hfind).symm⟩
  have hruns : ((ctor fourFds).toOption.bind fun s₀ => machine.run s₀ exhausted).map
      (fun s => (s.passed, s.closed, s.backlog)) = some ([1], [0], [3]) := by
    decide +kernel
  obtain ⟨s, hs, heq⟩ := Option.map_eq_some_iff.mp hruns
  obtain ⟨s₀, hctor, hrun⟩ := Option.bind_eq_some_iff.mp hs
  have hstarted : machine.init s₀ := ⟨fourFds, hinit, toOption_eq_some.mp hctor⟩
  obtain ⟨hidle, -, -, -, hperm, -⟩ := accept_survives hstarted hrun
  obtain ⟨hpassed, hclosed, hbacklog⟩ : s.passed = [1] ∧ s.closed = [0] ∧ s.backlog = [3] := by
    simpa using heq
  rw [hpassed, hclosed] at hperm
  exact ⟨s₀, s, hstarted, hrun, hpassed, hclosed, hperm.symm, hidle, hbacklog⟩

end

end Acceptor

end NetFrame
