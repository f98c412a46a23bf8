import Crashinfo.Lib.Cut
import Crashinfo.Main.Feeding
import Crashinfo.Main.Bounds

/-!
# The copying, a call at a time

`main` and the thread that it has started take turns, and a turn of `main` is one
call of `read` or `write`, or one look at `run.pid`.  So the copying is cut in front
of these (`Spot`), and what happens from one to the next one (`Spot.go`), turn after
turn, is the copying as a whole (`Spot.rest_eq`, `tee_eq_rest`).

Seven of the spots are calls of `safe_read` and `safe_write` (`Site`), and they
differ in nothing but what they are called for and what follows them.  Besides there
are the spots where `main` says nothing to the info pipe: it holds `dump_lock` and
opens the outputs, it closes its end of the pipe, and it waits for the thread.
-/

namespace Crashinfo

open Script Script.Run

/-- A `safe_read` or `safe_write` of the copying. -/
inductive Site where
  /-- the first `safe_read` -/
  | fill
  /-- `safe_write` of the feeding loop -/
  | feed (tries : Nat)
  /-- `safe_write` of what is in `buf` on the core output -/
  | head (bufRead bufWrite : Int)
  /-- `safe_write` of what the info pipe has not got of that yet -/
  | tail
  /-- `safe_read` of the copy loop -/
  | next
  /-- its `safe_write` of `n` bytes on the core output -/
  | save (n : Nat)
  /-- its `safe_write` on the info pipe -/
  | pass
  deriving DecidableEq, Repr

def Site.chan : Site → Chan
  | .fill | .next => .stdin
  | .head _ _ | .save _ => .core
  | .feed _ | .tail | .pass => .info

inductive Spot where
  /-- in front of the call for what is missing in `buf + off`, with `size` of `count`
  bytes moved -/
  | io (site : Site) (off count size : Nat)
  /-- in front of `ACCESS_ONCE(run.pid)` -/
  | asking (tries : Nat) (rtn : Except Errno Nat)
  /-- behind the feeding loop; the outputs are opened, and `dump_lock` is held -/
  | holding
  /-- in front of `blockfd` -/
  | blocking
  /-- behind the copy loop -/
  | closing
  /-- in `pthread_join` -/
  | joining
  /-- behind it -/
  | through
  /-- the outputs could not be opened, and `main` has returned -/
  | gone
  deriving DecidableEq, Repr

def Spot.first : Spot := .io .fill 0 bufSize 0

def Spot.turn : Spot := .io .next 0 bufSize 0

/-! ### From one spot to the next -/

def call : Chan → Nat → Nat → TeeRun (Except Errno Nat)
  | .stdin => read
  | .core => writeCore
  | .info => writeInfo

def frontFeed (tries : Nat) (t : Tee) : Spot :=
  if tries < 50 then .io (.feed tries) t.bufWrite.toNat (sizeT (t.bufRead - t.bufWrite)) 0
  else .holding

/-- What `main` does with what a `safe_read` or `safe_write` has returned. -/
def Site.put (rtn : Except Errno Nat) (t : Tee) : Site → Tee
  | .fill => { t with bufRead := ssizeT rtn, bufWrite := 0 }
  | .feed _ => { t with bufWrite := t.bufWrite + ((rtn.toOption.getD 0 : Nat) : Int) }
  | .head _ _ | .tail | .next | .save _ | .pass => t

def Site.to (rtn : Except Errno Nat) (t : Tee) : Site → Spot
  | .fill => if t.bufRead ≤ 0 then .holding else frontFeed 0 t
  | .feed tries => .asking (if rtn.toOption.getD 0 > 0 then 0 else tries) rtn
  | .head bufRead bufWrite =>
    if bufRead > bufWrite then .io .tail bufWrite.toNat (sizeT (bufRead - bufWrite)) 0
    else .turn
  | .next =>
    match rtn with
    | .error _ => .closing
    | .ok rtn => if rtn > 0 then .io (.save rtn) 0 rtn 0 else .closing
  | .save n => .io .pass 0 n 0
  | .tail | .pass => .turn

def asked (tries : Nat) (rtn : Except Errno Nat) (t : Tee) : Spot :=
  match rtn with
  | .error .eagain => frontFeed (tries + 1) t
  | .error _ => .holding
  | .ok _ => frontFeed tries t

/-- `dump_lock` is unlocked, and the build without libunwind closes the pipe. -/
def unlock (libunwind : Bool) : TeeRun Spot := do
  if libunwind then return .blocking
  else
    modify fun t => { t with infoOpen := false }
    return .turn

def Spot.go (libunwind : Bool) : Spot → TeeRun Spot
  | .io site off count size => do
    match repeatOr count size (← call site.chan (off + size) (count - size)) with
    | .inl size => return .io site off count size
    | .inr rtn =>
      modify fun t => site.put rtn t
      return site.to rtn (← get)
  | .asking tries rtn => do
    if (← readPid) ≠ -1 then return .holding
    else return asked tries rtn (← get)
  | .holding => unlock libunwind
  | .blocking => do
    blockfd
    let t ← get
    return .io (.head t.bufRead t.bufWrite) 0 (sizeT t.bufRead) 0
  | .closing => return .closing
  | .joining => return .joining
  | .through => return .through
  | .gone => return .gone

/-! ### What remains to be done -/

/-- What is left of `safe_read` or `safe_write` with `size` bytes moved. -/
def safeFrom {σ : Type} (io : Nat → Nat → Run Answer Fault σ (Except Errno Nat))
    (count size : Nat) : Run Answer Fault σ (Except Errno Nat) :=
  forever (fun size => do return repeatOr count size (← io size (count - size))) size

def feedOn (libunwind : Bool) (tries : Nat) : TeeRun Unit := do
  forever feedTurn tries
  transfer libunwind true

def copyLoop : TeeRun Unit := forever (fun _ => copyTurn true) ()

/-- What is left of a turn of the feeding loop behind `safe_write`. -/
def askRest (tries : Nat) (rtn : Except Errno Nat) : TeeRun (Nat ⊕ Unit) := do
  if (← readPid) ≠ -1 then return .inr ()
  else
    match rtn with
    | .error .eagain => return .inl (tries + 1)
    | .error _ => return .inr ()
    | .ok _ => return .inl tries

def turnRest (libunwind : Bool) : Nat ⊕ Unit → TeeRun Unit
  | .inl tries => feedOn libunwind tries
  | .inr () => transfer libunwind true

/-- What is left of `tee` behind a `safe_read` or `safe_write` that has returned. -/
def Site.rest (libunwind : Bool) : Site → Except Errno Nat → TeeRun Unit
  | .fill, rtn => do
    modify fun t => { t with bufRead := ssizeT rtn, bufWrite := 0 }
    if (← get).bufRead ≤ 0 then transfer libunwind true
    else feedOn libunwind 0
  | .feed tries, rtn => do
    let n := rtn.toOption.getD 0
    modify fun t => { t with bufWrite := t.bufWrite + n }
    turnRest libunwind (← askRest (if n > 0 then 0 else tries) rtn)
  | .head bufRead bufWrite, _ => do
    if bufRead > bufWrite then
      let _ ← safeWriteInfo bufWrite.toNat (sizeT (bufRead - bufWrite))
    copyLoop
  | .tail, _ => copyLoop
  | .next, .error _ => pure ()
  | .next, .ok rtn => do
    if rtn > 0 then
      let _ ← safeWriteCore 0 rtn
      let _ ← safeWriteInfo 0 rtn
      copyLoop
  | .save n, _ => do
    let _ ← safeWriteInfo 0 n
    copyLoop
  | .pass, _ => copyLoop

def Spot.rest (libunwind : Bool) : Spot → TeeRun Unit
  | .io site off count size => do
    site.rest libunwind (← safeFrom (fun size n => call site.chan (off + size) n) count size)
  | .asking tries rtn => do
    turnRest libunwind (← askRest tries rtn)
  | .holding => transfer libunwind true
  | .blocking => do
    blockfd
    let t ← get
    let rtn ← safeWriteCore 0 (sizeT t.bufRead)
    (Site.head t.bufRead t.bufWrite).rest libunwind rtn
  | .closing => pure ()
  | .joining => pure ()
  | .through => pure ()
  | .gone => pure ()

/-! ### The equations -/

section Loops

variable {σ : Type} {io : Nat → Nat → Run Answer Fault σ (Except Errno Nat)} {count : Nat}

theorem asking_safeIo (hio : ∀ size n, Asks 1 (io size n)) :
    Asking fun size => do return repeatOr count size (← io size (count - size)) := by
  intro size s o b s' o' hrun
  exact asks_bind (k := 0) (hio _ _) (fun _ => asks_pure _) s o _ s' o' hrun

theorem safeFrom_eq (hio : ∀ size n, Asks 1 (io size n)) (size : Nat) :
    safeFrom io count size =
      (io size (count - size) >>= fun r =>
        Sum.elim (safeFrom io count) pure (repeatOr count size r)) := by
  rw [safeFrom, forever_unroll (asking_safeIo hio), bind_assoc]
  rfl

theorem asks_safeIo (hio : ∀ size n, Asks 1 (io size n)) : Asks 1 (safeIo io count) := by
  have hmore : ∀ size, Asks 0 (safeFrom io count size) :=
    asks_forever fun size => (asks_bind (k := 0) (hio _ _) fun _ => asks_pure _).le (Nat.zero_le 1)
  have hfirst : Asks 1 (safeFrom io count 0) := by
    rw [safeFrom_eq hio]
    refine asks_bind (k := 0) (hio _ _) fun r => ?_
    cases repeatOr count 0 r with
    | inl size => exact hmore size
    | inr rtn => exact asks_pure rtn
  exact hfirst

theorem asks_writeCore (off count : Nat) : Asks 1 (writeCore off count) := by
  refine asks_bind (k := 0) asks_ask fun w => asks_bind (k := 0) (asks_modify _) fun _ => ?_
  split
  · exact asks_pure _
  · split
    · exact asks_fault _
    · exact asks_bind (k := 0) (asks_modify _) fun _ => asks_pure _

theorem safeFrom_bind {α : Type} (hio : ∀ size n, Asks 1 (io size n)) (size : Nat)
    (k : Except Errno Nat → Run Answer Fault σ α) :
    (safeFrom io count size >>= k) =
      (io size (count - size) >>= fun r =>
        match repeatOr count size r with
        | .inl size => safeFrom io count size >>= k
        | .inr rtn => k rtn) := by
  rw [safeFrom_eq hio, bind_assoc]
  refine bind_congr fun r => ?_
  cases repeatOr count size r with
  | inl size => rfl
  | inr rtn => rfl

end Loops

section Equations

variable {libunwind : Bool}

theorem asks_call (c : Chan) (off count : Nat) : Asks 1 (call c off count) := by
  cases c with
  | stdin => exact asks_read off count
  | core => exact asks_writeCore off count
  | info => exact asks_writeInfo off count

theorem feedTurn_eq {tries : Nat} (h : tries < 50) :
    feedTurn tries = (do
      let t ← get
      let rtn ← safeWriteInfo t.bufWrite.toNat (sizeT (t.bufRead - t.bufWrite))
      let n := rtn.toOption.getD 0
      modify fun t => { t with bufWrite := t.bufWrite + n }
      askRest (if n > 0 then 0 else tries) rtn) := by
  rw [feedTurn, if_pos h]
  rfl

theorem turnRest_eq (r : Nat ⊕ Unit) : turnRest libunwind r =
    (Sum.elim (fun tries => forever feedTurn tries) pure r >>= fun _ =>
      transfer libunwind true) := by
  cases r with
  | inl tries => rfl
  | inr u => rfl

theorem feedOn_eq (tries : Nat) :
    feedOn libunwind tries = (get >>= fun t => (frontFeed tries t).rest libunwind) := by
  have hturn : feedOn libunwind tries = (feedTurn tries >>= turnRest libunwind) := by
    rw [feedOn, forever_unroll asking_feedTurn, bind_assoc]
    exact bind_congr fun r => (turnRest_eq r).symm
  rw [hturn]
  by_cases h : tries < 50
  · rw [feedTurn_eq h]
    simp only [frontFeed, if_pos h, bind_assoc]
    rfl
  · simp only [frontFeed, if_neg h, feedTurn]
    rfl

theorem askRest_eq (tries : Nat) (rtn : Except Errno Nat) :
    (askRest tries rtn >>= turnRest libunwind) =
      ((Spot.asking tries rtn).go libunwind >>= Spot.rest libunwind) := by
  simp only [askRest, Spot.go, bind_assoc]
  refine bind_congr fun p => ?_
  split
  · rfl
  · unfold asked
    split
    · exact feedOn_eq _
    · rfl
    · exact feedOn_eq _

theorem asking_copyTurn (infoFd : Bool) : Asking fun _ => copyTurn infoFd := by
  intro u t o b t' o' hrun
  refine asks_bind (k := 0) (asks_safeIo asks_read) (fun rtn => ?_) t o _ t' o' hrun
  have hcore : ∀ n, Asks 0 (safeWriteCore 0 n) := fun n =>
    (asks_safeIo fun _ _ => asks_writeCore _ _).le (Nat.zero_le 1)
  cases rtn with
  | error e => exact asks_pure _
  | ok n =>
    dsimp only
    split
    · refine asks_bind (j := 0) (k := 0) (hcore n) fun _ => ?_
      cases infoFd with
      | false => exact asks_pure _
      | true => exact asks_bind (j := 0) (k := 0) (asks_safeWriteInfo _ _) fun _ => asks_pure _
    · exact asks_pure _

theorem copyTurn_eq {m : Unit → TeeRun Unit} (hm : m () = copyLoop) :
    (copyTurn true >>= Sum.elim m pure) =
      (safeRead bufSize >>= Site.rest libunwind .next) := by
  simp only [copyTurn, bind_assoc]
  refine bind_congr fun rtn => ?_
  cases rtn with
  | error e => rfl
  | ok n =>
    rw [Site.rest]
    dsimp only
    split
    · simp only [if_true, bind_assoc, pure_bind, Sum.elim_inl, hm]
    · rfl

theorem safeRead_eq (count : Nat) :
    safeRead count = safeFrom (fun size n => call .stdin (0 + size) n) count 0 := by
  simp only [Nat.zero_add]
  rfl

theorem copyLoop_eq (libunwind : Bool) : copyLoop = Spot.turn.rest libunwind := by
  have hturn : (copyTurn true >>= Sum.elim (fun _ => copyLoop) pure) =
      (safeRead bufSize >>= Site.rest libunwind .next) := copyTurn_eq rfl
  rw [safeRead_eq] at hturn
  rw [copyLoop, forever_unroll (asking_copyTurn true)]
  exact hturn

theorem transfer_eq : transfer libunwind true = (unlock libunwind >>= Spot.rest libunwind) := by
  cases libunwind with
  | true =>
    simp only [transfer, catchUp, unlock, if_true, bind_assoc, pure_bind, Spot.rest]
    refine bind_congr fun _ => bind_congr fun t => bind_congr fun _ => ?_
    rw [Site.rest]
    split
    · simp only [bind_assoc, pure_bind]
      rfl
    · simp only [pure_bind]
      rfl
  | false => exact bind_congr fun _ => copyLoop_eq false

theorem Site.rest_eq (site : Site) (rtn : Except Errno Nat) :
    site.rest libunwind rtn = (do
      modify fun t => site.put rtn t
      (site.to rtn (← get)).rest libunwind) := by
  cases site with
  | fill =>
    refine bind_congr fun _ => ?_
    funext t o
    show (if t.bufRead ≤ 0 then _ else _ : TeeRun Unit) t o =
      Spot.rest libunwind (if _ then _ else _) t o
    split
    · rfl
    · rw [feedOn_eq]
      rfl
  | feed tries => rfl
  | head bufRead bufWrite =>
    show _ = Spot.rest libunwind (if _ then _ else _)
    rw [Site.rest]
    split
    · rfl
    · exact copyLoop_eq libunwind
  | tail => exact copyLoop_eq libunwind
  | next =>
    cases rtn with
    | error e => rfl
    | ok n =>
      show _ = Spot.rest libunwind (if _ then _ else _)
      rw [Site.rest]
      split
      · rfl
      · rfl
  | save n => rfl
  | pass => exact copyLoop_eq libunwind

/-- **The copying is what happens from spot to spot**, one call after the other. -/
theorem Spot.rest_eq (p : Spot) : p.rest libunwind = (p.go libunwind >>= Spot.rest libunwind) := by
  cases p with
  | io site off count size =>
    refine (safeFrom_bind (fun _ _ => asks_call _ _ _) size _).trans ?_
    rw [Spot.go, bind_assoc]
    refine bind_congr fun r => ?_
    cases repeatOr count size r with
    | inl size => rfl
    | inr rtn => exact (Site.rest_eq site rtn).trans (bind_assoc _ _ _).symm
  | asking tries rtn => exact askRest_eq tries rtn
  | holding => exact transfer_eq
  | blocking =>
    rw [Spot.go, bind_assoc]
    rfl
  | closing => rfl
  | joining => rfl
  | through => rfl
  | gone => rfl

theorem tee_eq_rest : tee libunwind .thread = Spot.first.rest libunwind := by
  simp only [tee, feed, bind_assoc, if_true, safeRead_eq]
  refine bind_congr fun rtn => bind_congr fun _ => bind_congr fun t => ?_
  split
  · rfl
  · exact bind_assoc _ _ _

end Equations

/-! ### What a step of `main` comes to -/

def Tee.res (t : Tee) (w : Answer) (count : Nat) : Chan → Except Errno Nat
  | .stdin => (t.readRes w count).getD (.error .other)
  | .core => coreRes w count
  | .info => (t.infoRes w count).getD (.error .other)

def Tee.moved (t : Tee) (off count : Nat) (r : Except Errno Nat) : Chan → Tee
  | .stdin =>
    match r with
    | .error e => t.record ⟨.stdin, off, count, .error e⟩
    | .ok n =>
      { t with stdin := t.stdin.drop n, buf := overwrite t.buf off (t.stdin.take n) }.record
        ⟨.stdin, off, count, .ok n⟩
  | .core =>
    match r with
    | .error e => t.record ⟨.core, off, count, .error e⟩
    | .ok n =>
      { t.record ⟨.core, off, count, .ok n⟩ with core := t.core ++ slice t.buf off n }
  | .info =>
    match r with
    | .error e =>
      { t.record ⟨.info, off, count, .error e⟩ with broken := t.broken || decide (e = .epipe) }
    | .ok n =>
      { t.record ⟨.info, off, count, .ok n⟩ with info := t.info ++ slice t.buf off n }

section Calls

variable {t t' : Tee} {c : Chan} {w : Answer} {off count size n : Nat} {r : Except Errno Nat}
  {o o' : List Answer}

@[simp] theorem moved_bufRead : (t.moved off count r c).bufRead = t.bufRead := by
  cases c <;> cases r <;> rfl

@[simp] theorem moved_bufWrite : (t.moved off count r c).bufWrite = t.bufWrite := by
  cases c <;> cases r <;> rfl

@[simp] theorem moved_pid : (t.moved off count r c).pid = t.pid := by
  cases c <;> cases r <;> rfl

@[simp] theorem moved_nonblock : (t.moved off count r c).nonblock = t.nonblock := by
  cases c <;> cases r <;> rfl

@[simp] theorem moved_infoOpen : (t.moved off count r c).infoOpen = t.infoOpen := by
  cases c <;> cases r <;> rfl

@[simp] theorem moved_stdin : (t.moved off count r c).stdin =
    if c = .stdin then t.stdin.drop (r.toOption.getD 0) else t.stdin := by
  cases c <;> cases r <;> rfl

@[simp] theorem moved_info : (t.moved off count r c).info =
    t.info ++ if c = .info then slice t.buf off (r.toOption.getD 0) else [] := by
  cases c with
  | stdin | core => cases r <;> exact (List.append_nil _).symm
  | info =>
    cases r with
    | error e => exact (List.append_nil _).symm
    | ok n => rfl

@[simp] theorem moved_broken : (t.moved off count r c).broken =
    (t.broken || decide (c = .info ∧ r = .error .epipe)) := by
  cases c <;> cases r <;> simp [Tee.moved, Tee.record]

@[simp] theorem put_stdin {site : Site} : (site.put r t).stdin = t.stdin := by
  cases site <;> rfl

@[simp] theorem put_info {site : Site} : (site.put r t).info = t.info := by
  cases site <;> rfl

@[simp] theorem put_broken {site : Site} : (site.put r t).broken = t.broken := by
  cases site <;> rfl

@[simp] theorem put_nonblock {site : Site} : (site.put r t).nonblock = t.nonblock := by
  cases site <;> rfl

@[simp] theorem put_infoOpen {site : Site} : (site.put r t).infoOpen = t.infoOpen := by
  cases site <;> rfl

@[simp] theorem put_pid {site : Site} : (site.put r t).pid = t.pid := by
  cases site <;> rfl

/-- A call that moves nothing leaves no trace but in the record. -/
theorem moved_error {e : Errno} (he : e ≠ .epipe) :
    t.moved off count (.error e) c = t.record ⟨c, off, count, .error e⟩ := by
  cases c with
  | stdin | core => rfl
  | info =>
    have hno : (t.broken || decide (e = .epipe)) = t.broken := by
      rw [decide_eq_false he, Bool.or_false]
    show ({ t.record _ with broken := t.broken || decide (e = .epipe) } : Tee) = _
    rw [hno]
    rfl

/-- Nobody waits for ever for a pipe that has a reader. -/
theorem infoRes_served (hread : t.unread = false) :
    t.infoRes w count = some (t.res w count .info) := by
  have hsays := infoRes_says t w count
  rw [Tee.res]
  generalize t.infoRes w count = r at hsays ⊢
  cases hsays with
  | waits hu => rw [hread] at hu; cases hu
  | error e | ok n => rfl

theorem readRes_served (hin : t.input = .core) :
    t.readRes w count = some (t.res w count .stdin) := by
  rw [Tee.res]
  rcases readRes_cases t w count with ⟨-, hne⟩ | ⟨e, he⟩ | ⟨n, hn, -⟩
  · exact absurd hin hne
  · rw [he]
    rfl
  · rw [hn]
    rfl

theorem read_run (h : t.readRes w count = some r) :
    read off count t (w :: o) = .done r (t.moved off count r .stdin) o := by
  rw [read_cons, h]
  cases r <;> rfl

/-- What follows a `write` of `count` bytes stays inside of `buf` if any is written. -/
theorem writeCore_run (hroom : ∀ n, coreRes w count = .ok n → off + count ≤ bufSize) :
    writeCore off count t (w :: o) =
      .done (coreRes w count) (t.moved off count (coreRes w count) .core) o := by
  have hcons : writeCore off count t (w :: o) = (match coreRes w count with
      | .error e => return .error e
      | .ok n =>
        if off + count > bufSize then fault .outOfBounds
        else do
          modify fun t => { t with core := t.core ++ slice t.buf off n }
          return .ok n : TeeRun (Except Errno Nat))
        (t.record ⟨.core, off, count, coreRes w count⟩) o := rfl
  rw [hcons]
  cases hr : coreRes w count with
  | error e => rfl
  | ok n =>
    dsimp only
    rw [if_neg (Nat.not_lt.mpr (hroom n hr))]
    rfl

theorem writeInfo_cons (off count : Nat) (t : Tee) (w : Answer) (o : List Answer) :
    writeInfo off count t (w :: o) = (match t.infoRes w count with
      | none => .stop .stuck t
      | some (.error e) => .done (.error e) (t.moved off count (.error e) .info) o
      | some (.ok n) =>
        if off + count > bufSize then
          .stop (.fault .outOfBounds) (t.record ⟨.info, off, count, .ok n⟩)
        else .done (.ok n) (t.moved off count (.ok n) .info) o) := by
  have hask : (ask : TeeRun Answer) t (w :: o) = .done w t o := rfl
  have hget : (get : TeeRun Tee) t o = .done t t o := rfl
  rw [writeInfo, bind_of_done hask, bind_of_done hget]
  cases t.infoRes w count with
  | none => rfl
  | some r =>
    cases r with
    | error e => rfl
    | ok n =>
      show (if off + count > bufSize then _ else _ : TeeRun (Except Errno Nat)) _ o = _
      dsimp only
      split
      · rfl
      · rfl

/-- A call inside of `buf` comes to what it comes to. -/
theorem call_run (h : t.Served) (hroom : ∀ n, t.res w count c = .ok n → off + count ≤ bufSize) :
    call c off count t (w :: o) =
      .done (t.res w count c) (t.moved off count (t.res w count c) c) o := by
  cases c with
  | stdin => exact read_run (readRes_served h.input)
  | core => exact writeCore_run hroom
  | info =>
    rw [call, writeInfo_cons, infoRes_served h.read]
    cases hr : t.res w count .info with
    | error e => rfl
    | ok n =>
      dsimp only
      rw [if_neg (Nat.not_lt.mpr (hroom n hr))]

theorem done_of_call (h : call c off count t o = .done r t' o') :
    ∃ w, o = w :: o' ∧ r = t.res w count c ∧ t' = t.moved off count r c ∧
      (c ≠ .stdin → ∀ n, r = .ok n → off + count ≤ bufSize) := by
  cases o with
  | nil => cases c <;> cases h
  | cons w o =>
    cases c with
    | stdin =>
      rw [call] at h
      cases hr : t.readRes w count with
      | none =>
        rw [read_cons, hr] at h
        cases h
      | some r' =>
        rw [read_run hr] at h
        cases h
        refine ⟨w, rfl, ?_, rfl, fun hne => absurd rfl hne⟩
        rw [Tee.res, hr]
        rfl
    | core =>
      rw [call] at h
      by_cases hroom : ∀ n, coreRes w count = .ok n → off + count ≤ bufSize
      · rw [writeCore_run hroom] at h
        cases h
        exact ⟨w, rfl, rfl, rfl, fun _ => hroom⟩
      · rw [not_forall] at hroom
        obtain ⟨n, hn⟩ := hroom
        rw [Classical.not_imp] at hn
        have hout : writeCore off count t (w :: o) = .stop (.fault .outOfBounds)
            (t.record ⟨.core, off, count, .ok n⟩) := by
          show (match coreRes w count with
            | .error e => return .error e
            | .ok n => if off + count > bufSize then fault .outOfBounds else _ :
              TeeRun (Except Errno Nat)) (t.record ⟨.core, off, count, coreRes w count⟩) o = _
          rw [hn.1]
          dsimp only
          rw [if_pos (Nat.lt_of_not_le hn.2)]
          rfl
        rw [hout] at h
        cases h
    | info =>
      rw [call, writeInfo_cons] at h
      cases hr : t.infoRes w count with
      | none =>
        rw [hr] at h
        cases h
      | some r' =>
        have hres : t.res w count .info = r' := by
          rw [Tee.res, hr]
          rfl
        rw [hr] at h
        cases r' with
        | error e =>
          cases h
          exact ⟨w, rfl, hres.symm, rfl, fun _ n hn => by cases hn⟩
        | ok n =>
          dsimp only at h
          split at h
          · cases h
          · rename_i hle
            cases h
            exact ⟨w, rfl, hres.symm, rfl, fun _ _ _ => Nat.not_lt.mp hle⟩

theorem le_of_res (hs : t.Served) (h : t.res w count c = .ok n) :
    n ≤ count ∧ (c = .stdin → n ≤ t.stdin.length) ∧
      (n = 0 → count = 0 ∨ c = .stdin ∧ t.stdin = []) := by
  cases c with
  | stdin =>
    have hread := (readRes_served hs.input).trans (congrArg some h)
    rcases readRes_cases t w count with ⟨hn, -⟩ | ⟨e, he⟩ | ⟨m, hm, hle, h0⟩
    · rw [hread] at hn
      cases hn
    · rw [hread] at he
      cases he
    · rw [hread] at hm
      cases hm
      refine ⟨by omega, fun _ => by omega, fun hn => ?_⟩
      have := h0 hs.input hn
      by_cases hc : count = 0
      · exact Or.inl hc
      · exact Or.inr ⟨rfl, List.eq_nil_of_length_eq_zero (by omega)⟩
  | core =>
    rcases coreRes_cases w count with ⟨e, he, -⟩ | ⟨m, hm, hle, h0, -⟩
    · rw [Tee.res, he] at h
      cases h
    · rw [Tee.res, hm] at h
      cases h
      exact ⟨hle, Chan.noConfusion, fun hn => Or.inl (h0 hn)⟩
  | info =>
    have hsays := infoRes_says t w count
    rw [infoRes_served hs.read, h] at hsays
    cases hsays with
    | ok _ hle h0 => exact ⟨hle, Chan.noConfusion, fun hn => Or.inl (h0 hn)⟩

/-- What becomes of a call of `safe_read` or `safe_write`. -/
theorem repeatOr_cases (count size : Nat) (r : Except Errno Nat) :
    (∃ n, r = .ok n ∧ 0 < n ∧ size + n < count ∧ repeatOr count size r = .inl (size + n)) ∨
    (r = .error .eintr ∧ repeatOr count size r = .inl size) ∨
    (∃ n, r = .ok n ∧ (n = 0 ∨ count ≤ size + n) ∧
      repeatOr count size r = .inr (.ok (size + n))) ∨
    ∃ e, e ≠ .eintr ∧ r = .error e ∧
      repeatOr count size r = .inr (if size = 0 then .error e else .ok size) := by
  cases r with
  | ok n =>
    rw [repeatOr]
    by_cases h : n > 0 ∧ size + n < count
    · exact Or.inl ⟨n, rfl, h.1, h.2, if_pos h⟩
    · exact Or.inr (Or.inr (Or.inl ⟨n, rfl, by omega, if_neg h⟩))
  | error e =>
    rw [repeatOr]
    by_cases he : e = .eintr
    · exact Or.inr (Or.inl ⟨by rw [he], if_pos he⟩)
    · refine Or.inr (Or.inr (Or.inr ⟨e, he, rfl, ?_⟩))
      rw [if_neg he]
      split
      · rfl
      · rfl

end Calls

/-! ### From spot to spot -/

section Steps

variable {libunwind : Bool} {t t' : Tee} {w : Answer} {p : Spot} {site : Site}
  {off count size : Nat} {o o' : List Answer}

/-- A call of `safe_read` or `safe_write` is repeated, or what follows is done. -/
theorem done_of_io (h : (Spot.io site off count size).go libunwind t o = .done p t' o') :
    ∃ w, o = w :: o' ∧ (site.chan ≠ .stdin → ∀ n, t.res w (count - size) site.chan = .ok n →
        off + size + (count - size) ≤ bufSize) ∧
      ((∃ size', repeatOr count size (t.res w (count - size) site.chan) = .inl size' ∧
          p = .io site off count size' ∧
          t' = t.moved (off + size) (count - size) (t.res w (count - size) site.chan) site.chan) ∨
        ∃ rtn, repeatOr count size (t.res w (count - size) site.chan) = .inr rtn ∧
          p = site.to rtn t' ∧ t' = site.put rtn
            (t.moved (off + size) (count - size) (t.res w (count - size) site.chan) site.chan)) := by
  obtain ⟨r, t₁, o₁, hcall, hrest⟩ := of_bind_done h
  obtain ⟨w, rfl, rfl, rfl, hroom⟩ := done_of_call hcall
  refine ⟨w, ?_⟩
  cases hor : repeatOr count size (t.res w (count - size) site.chan) with
  | inl size' =>
    rw [hor] at hrest
    cases hrest
    exact ⟨rfl, hroom, Or.inl ⟨size', rfl, rfl, rfl⟩⟩
  | inr rtn =>
    rw [hor] at hrest
    cases hrest
    exact ⟨rfl, hroom, Or.inr ⟨rtn, rfl, rfl, rfl⟩⟩

/-- A call is made, with any answer, if it stays inside of `buf`. -/
theorem io_run (hs : t.Served) (hroom : ∀ n, t.res w (count - size) site.chan = .ok n →
      off + size + (count - size) ≤ bufSize) :
    ∃ p t', (Spot.io site off count size).go libunwind t (w :: o) = .done p t' o := by
  rw [Spot.go, bind_of_done (call_run hs hroom)]
  cases repeatOr count size (t.res w (count - size) site.chan) with
  | inl size' => exact ⟨_, _, rfl⟩
  | inr rtn => exact ⟨_, _, rfl⟩

def Tee.pidAfter (t : Tee) (w : Answer) : Int :=
  match w with
  | .prepared p => if t.pid = -1 then if p < 0 then -2 else p else t.pid
  | _ => t.pid

theorem asking_run {tries : Nat} {rtn : Except Errno Nat} :
    (Spot.asking tries rtn).go libunwind t (w :: o) =
      .done (if t.pidAfter w ≠ -1 then .holding else asked tries rtn t)
        { t with pid := t.pidAfter w } o := by
  have hread : readPid t (w :: o) = .done (t.pidAfter w) { t with pid := t.pidAfter w } o := by
    cases w with
    | prepared p =>
      have hput : (if t.pid = -1 then { t with pid := if p < 0 then -2 else p } else t) =
          { t with pid := t.pidAfter (.prepared p) } := by
        simp only [Tee.pidAfter]
        split
        · rfl
        · rfl
      have hrun : readPid t (.prepared p :: o) = .done
          (if t.pid = -1 then { t with pid := if p < 0 then -2 else p } else t).pid
          (if t.pid = -1 then { t with pid := if p < 0 then -2 else p } else t) o := rfl
      rw [hrun, hput]
    | ok | err e | amount k | thread a | status b n => rfl
  rw [Spot.go, bind_of_done hread]
  split
  · rfl
  · show Res.done (asked tries rtn _) _ _ = _
    unfold asked frontFeed
    rfl

theorem frames_call (c : Chan) (off count : Nat) : Frames (call c off count) := by
  cases c with
  | stdin =>
    refine frames_bind frames_ask fun w => frames_bind frames_get fun t => ?_
    split
    · exact frames_stop .stuck
    · exact frames_bind (frames_modify _) fun _ => frames_pure _
    · exact frames_bind (frames_modify _) fun _ => frames_pure _
  | core =>
    refine frames_bind frames_ask fun w => frames_bind (frames_modify _) fun _ => ?_
    split
    · exact frames_pure _
    · exact frames_ite (frames_stop (.fault Fault.outOfBounds))
        (frames_bind (frames_modify _) fun _ => frames_pure _)
  | info =>
    refine frames_bind frames_ask fun w => frames_bind frames_get fun t => ?_
    split
    · exact frames_stop .stuck
    · refine frames_bind (frames_modify _) fun _ => ?_
      split
      · exact frames_bind (frames_modify _) fun _ => frames_pure _
      · exact frames_ite (frames_stop (.fault Fault.outOfBounds))
          (frames_bind (frames_modify _) fun _ => frames_pure _)

theorem frames_blockfd : Frames blockfd := by
  refine frames_bind frames_ask fun w => ?_
  split
  · exact frames_pure ()
  · exact frames_modify _

/-- What follows in the script makes no difference to a step. -/
theorem frames_go (p : Spot) : Frames (p.go libunwind) := by
  cases p with
  | io site off count size =>
    refine frames_bind (frames_call _ _ _) fun r => ?_
    split
    · exact frames_pure _
    · exact frames_bind (frames_modify _) fun _ => frames_bind frames_get fun _ => frames_pure _
  | asking tries rtn =>
    intro t o q t' o' h x
    cases o with
    | nil => cases h
    | cons w o =>
      rw [asking_run] at h
      cases h
      exact asking_run
  | holding =>
    refine frames_ite ?_ ?_
    · exact frames_pure _
    · exact frames_bind (frames_modify _) fun _ => frames_pure _
  | blocking =>
    exact frames_bind frames_blockfd fun _ => frames_bind frames_get fun _ => frames_pure _
  | closing | joining | through | gone => exact frames_pure _

/-- **Step by step, `tee` does what it does as a whole.** -/
theorem tee_of_walks {t₀ : Tee} (h : Walks (Spot.go libunwind) .first t₀ o p t) (x : List Answer) :
    tee libunwind .thread t₀ (o ++ x) = p.rest libunwind t x := by
  rw [tee_eq_rest]
  exact h.rest_eq frames_go Spot.rest_eq x

end Steps

end Crashinfo
