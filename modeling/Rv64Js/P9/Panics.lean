import Rv64Js.P9.FidTable
import Rv64Js.P9.HostFs

/-! # Requests that panic

A backend panics on a length or a time outside its range. Only `Twrite` and `Tsetattr` hand one
over, so that the fields of a request tell whether it may. -/

set_option autoImplicit false

namespace Rv64Js.P9

open Fallible

section Calm

variable {σ α β : Type}

def Calm (m : EStateM Fail σ α) (s : σ) : Prop := ∀ s', m s ≠ .error .panic s'

namespace Calm

variable {m : EStateM Fail σ α} {k : α → EStateM Fail σ β} {s : σ}

theorem of_ok {a : α} {s' : σ} (run : m s = .ok a s') : Calm m s := fun _ => by
  rw [run]
  exact nofun

theorem pure (a : α) : Calm (Pure.pure a) s := fun _ => nofun

theorem errno (e : Errno) : Calm (throw (.errno e) : EStateM Fail σ α) s := fun _ => nofun

theorem bind (first : Calm m s) (rest : ∀ a s', m s = .ok a s' → Calm (k a) s') :
    Calm (m >>= k) s := by
  intro s'
  cases run : m s with
  | ok a t =>
    rw [bind_ok k run]
    exact rest a t run s'
  | error e t =>
    rw [bind_error k run]
    exact fun same => first t (by cases same; exact run)

theorem ite {p : Prop} [Decidable p] {n : EStateM Fail σ α} (yes : p → Calm m s)
    (no : ¬p → Calm n s) : Calm (if p then m else n) s := by
  by_cases h : p
  · rw [if_pos h]; exact yes h
  · rw [if_neg h]; exact no h

theorem attempt (inner : Calm m s) : Calm (Fallible.attempt Fail.isErrno m) s := by
  intro s'
  unfold Fallible.attempt
  cases run : m s with
  | ok a t => exact nofun
  | error e t =>
    cases e with
    | errno e => exact nofun
    | panic => exact (inner t run).elim

end Calm

/-- The backend panics at most on a call that is given a length or a time that does not fit. -/
def FsBackend.Sturdy (fs : FsBackend σ) (fits : Op → Prop) : Prop :=
  ∀ op s, (op.Sets → fits op) → Calm (fs.call op) s

end Calm

/-! ## The backends -/

namespace MemFs

variable {α β : Type}

/-- Lengths that `Vec` can hold. -/
def Fits (w : Nat) : Op → Prop
  | .write _ offset data => offset.toNat % 2 ^ w + data.length < 2 ^ (w - 1)
  | .truncate _ size => size.toNat % 2 ^ w < 2 ^ (w - 1)
  | _ => True

theorem lift_calm (f : MemFs → Except Errno α) (fs : MemFs) : Calm (lift f) fs := by
  intro fs'
  unfold lift
  cases f fs <;> exact nofun

theorem lift_bind {f : MemFs → Except Errno α} {k : α → M β} {fs : MemFs}
    (rest : ∀ a, Calm (k a) fs) : Calm (lift f >>= k) fs := by
  refine .bind (lift_calm f fs) fun a fs' run => ?_
  unfold lift at run
  cases found : f fs <;> rw [found] at run <;> cases run
  exact rest a

theorem get_calm {k : MemFs → M α} {fs : MemFs} (rest : Calm (k fs) fs) :
    Calm (get >>= k) fs := rest

theorem resizeFile_calm {w n : Nat} (small : n < 2 ^ (w - 1)) (idx : Nat) (d : List Byte)
    (fs : MemFs) : Calm (resizeFile w idx d n) fs :=
  .ite (fun ⟨_, large⟩ => absurd small large.not_gt) fun _ => .of_ok rfl

theorem createAt_calm (path : Str) (body : Body) (mode : BitVec 32) (fs : MemFs) :
    Calm (createAt path body mode) fs := by
  refine lift_bind fun (dir, name) => get_calm (.ite (fun _ => .errno _) fun _ => ?_)
  split
  · exact .of_ok rfl
  · exact .errno _

theorem writeFile_calm {w start : Nat} {data : List Byte}
    (small : start + data.length < 2 ^ (w - 1)) (idx : Nat) (d : List Byte)
    (fs : MemFs) : Calm (writeFile w idx d start data) fs := by
  have whole : (start + data.length) % 2 ^ w = start + data.length :=
    Nat.mod_eq_of_lt (small.trans_le (Nat.pow_le_pow_right Nat.two_pos (Nat.sub_le w 1)))
  unfold writeFile growFile
  rw [whole]
  refine .bind
    (.ite (fun _ => .bind (resizeFile_calm small idx d fs) fun _ _ _ => .pure _) fun _ => .pure _)
    fun d' fs' _ => .ite (absurd rfl) fun _ => .of_ok rfl

theorem sturdy (w : Nat) : (backend w).Sturdy (Fits w) := by
  intro op fs fits
  cases op with
  | statfs => exact .of_ok rfl
  | lstat => exact lift_calm _ fs
  | close => exact .pure _
  | openFile | setMode | setOwner | setTimes => exact lift_bind fun _ => .of_ok rfl
  | create | mkdir | symlink | mknod => exact createAt_calm _ _ _ fs
  | readdir | read | readlink =>
    refine lift_bind fun idx => get_calm ?_
    split <;> first | exact .pure _ | exact .errno _
  | write path offset data =>
    refine lift_bind fun idx => get_calm ?_
    split
    · exact writeFile_calm (fits trivial) idx _ fs
    · exact .errno _
    · exact .errno _
  | hardlink existing new =>
    exact lift_bind fun src => lift_bind fun (dir, name) =>
      get_calm (.ite (fun _ => .errno _) fun _ => .of_ok rfl)
  | remove path isDir =>
    refine lift_bind fun (dir, name) => get_calm ?_
    split
    · exact .errno _
    · split
      · exact .errno _
      · exact .of_ok rfl
  | rename src dst =>
    refine lift_bind fun (dir, name) => get_calm ?_
    split
    · exact .errno _
    · exact lift_bind fun _ => .of_ok rfl
  | truncate path size =>
    refine lift_bind fun idx => get_calm ?_
    split
    · exact resizeFile_calm (fits trivial) idx _ fs
    · exact .errno _

end MemFs

namespace HostFs

variable {α β : Type}

/-- Times the host's clock has. -/
def Fits : Op → Prop
  | .setTimes _ atime mtime => ∀ t ∈ atime.toList ++ mtime.toList, t.1.toNat < 2 ^ 63
  | _ => True

variable {s : HostFs}

theorem sys_calm (follows : Bool) (route : Route) (body : Host → Place → Host.Effects α) :
    Calm (sys follows route body) s := by
  intro s'
  unfold sys
  cases s.resolve follows route with
  | error e => exact nofun
  | ok p =>
    dsimp only
    cases body s.host p <;> exact nofun

theorem sys2_calm (follows : Bool) (route route' : Route)
    (body : Host → Place → Place → Host.Effects α) : Calm (sys2 follows route route' body) s := by
  intro s'
  unfold sys2
  cases s.resolve follows route with
  | error e => exact nofun
  | ok p =>
    cases s.resolve follows route' with
    | error e => exact nofun
    | ok p' =>
      dsimp only
      cases body s.host p p' <;> exact nofun

theorem path_calm (follows : Bool) (path : Str) (body : Host → Place → Host.Effects α) :
    Calm (realPath path >>= fun route => sys follows route body) s :=
  .bind (.of_ok rfl) fun route _ _ => sys_calm follows route body

/-- A call, then what is done with its value. -/
theorem path_calling (follows : Bool) (path : Str) {body : Host → Place → Host.Effects α}
    {k : α → M β} (rest : ∀ a s, Calm (k a) s) :
    Calm (realPath path >>= fun route => sys follows route body >>= k) s :=
  .bind (.of_ok rfl) fun route _ _ => .bind (sys_calm follows route body) fun a s' _ => rest a s'

theorem handle_calm (path : Str) (write : Bool) : Calm (handle path write) s := by
  have reopen (s : HostFs) : Calm (handle.reopen path write) s :=
    path_calling true path fun i s => .of_ok rfl
  refine .bind (.of_ok rfl) fun kept s' _ => ?_
  cases kept with
  | none => exact reopen s'
  | some kept => exact .ite (fun _ => reopen s') fun _ => .pure _

theorem onHandle_calm (path : Str) (write : Bool) (offset : BitVec 64) (e : Errno)
    (body : Host → Place → Host.Effects α) :
    Calm (handle path write >>= fun i => signed offset e (onHandle i body)) s :=
  .bind (handle_calm path write) fun i _ _ => .ite (fun _ => .errno _) fun _ =>
    sys_calm true (i, []) body

theorem toSys_calm {now : Time} {time : Option Time} (small : ∀ t ∈ time, t.1.toNat < 2 ^ 63) :
    Calm (toSys now time) s := by
  cases time with
  | none => exact .pure _
  | some t => exact .ite (fun large => absurd (small t rfl) large.not_gt) fun _ => .pure _

theorem sturdy : backend.Sturdy Fits := by
  intro op s fits
  have metadata (path : Str) (s : HostFs) : Calm (symlinkMetadata path) s := path_calm false path _
  cases op with
  | statfs => exact .pure _
  | lstat path => exact metadata path s
  | readdir | setMode => exact path_calm true _ _
  | openFile path flags =>
    exact .bind (metadata path s) fun md _ _ => .ite (fun _ => .errno _) fun _ =>
      .ite (fun _ => .pure _) fun _ =>
      path_calling true path fun i s => .bind (.of_ok rfl) fun _ s' _ => metadata path s'
  | close path => exact .of_ok rfl
  | read path offset len => exact onHandle_calm path false offset EINVAL _
  | write path offset data => exact onHandle_calm path true offset EINVAL _
  | create path flags mode =>
    exact path_calling true path fun i s => .bind (.of_ok rfl) fun _ s' _ => metadata path s'
  | mkdir path mode =>
    exact path_calling true path fun _ s => .bind (.attempt (path_calm true path _)) fun _ s' _ =>
      metadata path s'
  | symlink path | mknod path => exact path_calling _ path fun _ s => metadata path s
  | readlink path => exact path_calm false path _
  | hardlink existing new =>
    exact .bind (.of_ok rfl) fun _ _ _ => .bind (.of_ok rfl) fun _ _ _ => sys2_calm true _ _ _
  | remove path isDir => exact .bind (.of_ok rfl) fun _ _ _ => path_calm false path _
  | rename src dst =>
    exact .bind (.of_ok rfl) fun _ _ _ => .bind (.of_ok rfl) fun _ _ _ =>
      .bind (.of_ok rfl) fun _ _ _ => .bind (.of_ok rfl) fun _ _ _ => sys2_calm false _ _ _
  | setOwner path uid gid =>
    exact .bind (metadata path s) fun md _ _ => .ite (fun _ => .pure _) fun _ =>
      path_calm false path _
  | truncate path size => exact onHandle_calm path true size EIO _
  | setTimes path atime mtime =>
    have small : ∀ t ∈ atime.toList ++ mtime.toList, t.1.toNat < 2 ^ 63 := fits trivial
    have opens : Calm (openAny path) s := by
      refine .bind (.attempt (path_calm true path _)) fun found s' _ => ?_
      cases found with
      | none => exact path_calm true path _
      | some i => exact .pure _
    refine .bind opens fun i _ _ => .bind (.of_ok rfl) fun now _ _ =>
      .bind (toSys_calm fun t given => small t ?_) fun a _ _ =>
      .bind (toSys_calm fun t given => small t ?_) fun m _ _ => sys_calm true (i, []) _
    · exact List.mem_append_left _ (Option.mem_toList.mpr given)
    · exact List.mem_append_right _ (Option.mem_toList.mpr given)

end HostFs

/-! ## Requests -/

/-- Offset and data of a `Twrite`. -/
def writeFields (body : List Byte) : Option (BitVec 64 × List Byte) := do
  let (_, rest) ← takeNumber 32 4 body
  let (offset, rest) ← takeNumber 64 8 rest
  let (count, rest) ← takeNumber 32 4 rest
  let (data, _) ← takeBytes count.toNat rest
  pure (offset, data)

/-- What a `Tsetattr` is to change, the size and the times. -/
def setattrFields (body : List Byte) : Option (BitVec 32 × BitVec 64 × Time × Time) := do
  let (_, rest) ← takeNumber 32 4 body
  let (valid, rest) ← takeNumber 32 4 rest
  let (_, rest) ← takeNumber 32 4 rest
  let (_, rest) ← takeNumber 32 4 rest
  let (_, rest) ← takeNumber 32 4 rest
  let (size, rest) ← takeNumber 64 8 rest
  let (atimeSec, rest) ← takeNumber 64 8 rest
  let (atimeNsec, rest) ← takeNumber 64 8 rest
  let (mtimeSec, rest) ← takeNumber 64 8 rest
  let (mtimeNsec, _) ← takeNumber 64 8 rest
  pure (valid, size, (atimeSec, atimeNsec), (mtimeSec, mtimeNsec))

/-- The calls with a length or a time that a request asks for, under whatever path. -/
inductive Requested (body : List Byte) : Byte → Op → Prop
  | write (path : Str) {offset : BitVec 64} {data : List Byte}
    (fields : writeFields body = some (offset, data)) :
      Requested body T_WRITE (.write path offset data)
  | truncate (path : Str) {valid : BitVec 32} {size : BitVec 64} {atime mtime : Time}
      (fields : setattrFields body = some (valid, size, atime, mtime))
        (wanted : valid &&& SETATTR_SIZE ≠ 0) :
      Requested body T_SETATTR (.truncate path size)
  | setTimes (path : Str) {valid : BitVec 32} {size : BitVec 64} {atime mtime : Time}
      (fields : setattrFields body = some (valid, size, atime, mtime))
      (wanted : valid &&& (SETATTR_ATIME ||| SETATTR_MTIME) ≠ 0) :
      Requested body T_SETATTR (.setTimes path
        ((Handler.given valid SETATTR_ATIME (Handler.given valid SETATTR_ATIME_SET atime)).join)
        ((Handler.given valid SETATTR_MTIME (Handler.given valid SETATTR_MTIME_SET mtime)).join))

/-- The lengths and times of a request fit. -/
def Answerable (fits : Op → Prop) (req : List Byte) : Prop :=
  ∀ m ∈ Server.header req, ∀ op, Requested m.2.2 m.1 op → fits op

section Answers

variable {σ α β : Type} {fs : FsBackend σ} {fits : Op → Prop} {ctx : Ctx σ}

namespace Handler

theorem field_calm {take : List Byte → Option (α × List Byte)} {k : α → Handler σ β}
    (rest : ∀ a body, take ctx.body = some (a, body) → Calm (k a) { ctx with body := body }) :
    Calm (field take >>= k) ctx := by
  refine .bind (fun ctx' => ?_) fun a ctx' run => ?_
  · unfold field
    cases take ctx.body <;> exact nofun
  · obtain ⟨body, read, rfl⟩ := field_eq_ok run
    exact rest a body read

theorem lookupFid_calm (fid : BitVec 32) : Calm (lookupFid fid) ctx := by
  intro ctx'
  unfold lookupFid
  cases ctx.srv.fids fid <;> exact nofun

theorem openedFid_calm (fid : BitVec 32) : Calm (openedFid fid) ctx :=
  .bind (lookupFid_calm fid) fun _ _ _ => .ite (fun _ => .pure _) fun _ => .errno _

theorem change_calm {wanted : Bool} {m : Handler σ Unit} (inner : wanted = true → Calm m ctx) :
    Calm (change wanted m) ctx := .ite inner fun _ => .pure _

variable (sturdy : fs.Sturdy fits)

include sturdy

theorem ask_calm (op : Op) (small : op.Sets → fits op) : Calm (ask fs op) ctx := by
  intro ctx' run
  unfold ask zoom at run
  cases called : fs.call op ctx.srv.fs with
  | ok v s => rw [called] at run; cases run
  | error e s =>
    rw [called] at run
    cases run
    exact sturdy op _ small s called

theorem tWrite_calm (small : ∀ op, Requested ctx.body T_WRITE op → fits op) :
    Calm (tWrite fs) ctx := by
  refine field_calm fun fid _ read₁ => field_calm fun offset _ read₂ =>
    field_calm fun count _ read₃ =>
    field_calm fun data _ read₄ => .bind (openedFid_calm fid) fun f _ _ =>
    .bind (ask_calm sturdy _ fun _ => small _ (.write f.path ?_)) fun _ _ _ => .pure _
  dsimp only at read₂ read₃ read₄
  simp only [writeFields, read₁, read₂, read₃, read₄, Option.bind_eq_bind, Option.bind_some,
    Option.pure_def]

theorem tSetattr_calm (small : ∀ op, Requested ctx.body T_SETATTR op → fits op) :
    Calm (tSetattr fs) ctx := by
  refine field_calm fun fid _ r₁ => field_calm fun valid _ r₂ => field_calm fun mode _ r₃ =>
    field_calm fun uid _ r₄ => field_calm fun gid _ r₅ => field_calm fun size _ r₆ =>
    field_calm fun atimeSec _ r₇ => field_calm fun atimeNsec _ r₈ => field_calm fun mtimeSec _ r₉ =>
    field_calm fun mtimeNsec _ r₁₀ => ?_
  dsimp only at r₂ r₃ r₄ r₅ r₆ r₇ r₈ r₉ r₁₀
  have fields : setattrFields ctx.body =
      some (valid, size, (atimeSec, atimeNsec), (mtimeSec, mtimeNsec)) := by
    simp only [setattrFields, r₁, r₂, r₃, r₄, r₅, r₆, r₇, r₈, r₉, r₁₀, Option.bind_eq_bind,
      Option.bind_some, Option.pure_def]
  exact .bind (.bind (lookupFid_calm fid) fun _ _ _ => .pure _) fun path _ _ =>
    .bind (change_calm fun _ => ask_calm sturdy _ nofun) fun _ _ _ =>
    .bind (change_calm fun wanted => ask_calm sturdy _ fun _ =>
      small _ (.truncate path fields (of_decide_eq_true wanted))) fun _ _ _ =>
    .bind (change_calm fun wanted => ask_calm sturdy _ fun _ =>
      small _ (.setTimes path fields (of_decide_eq_true wanted))) fun _ _ _ =>
    .bind (change_calm fun _ => ask_calm sturdy _ nofun) fun _ _ _ => .pure _

/-- A request panics only if it asks for a length or a time that does not fit. -/
theorem dispatch_calm (w : Nat) (id : Byte) (small : ∀ op, Requested ctx.body id op → fits op) :
    Calm (dispatch w fs id) ctx := by
  by_cases write : id = T_WRITE
  · subst write
    exact tWrite_calm sturdy small
  by_cases setattr : id = T_SETATTR
  · subst setattr
    exact tSetattr_calm sturdy small
  intro ctx' run
  have panics : ∀ op s s', fs.call op s = .error .panic s' → op.Sets ∨ False :=
    fun op s s' panics =>
    .inl (by_contra fun plain => sturdy op s (absurd · plain) s' panics)
  exact (dispatch_tidy panics w id (·.elim write setattr) ctx .panic ctx' run).2 rfl

end Handler

theorem Server.handle_answers (sturdy : fs.Sturdy fits) (w : Nat) (srv : Server σ) {req : List Byte}
    (small : Answerable fits req) : ∃ out srv', handle w fs srv req = (some out, srv') := by
  unfold handle
  cases read : header req with
  | none => exact ⟨_, _, rfl⟩
  | some message =>
    obtain ⟨id, tag, body⟩ := message
    have calm : Calm (Handler.dispatch w fs id) ⟨srv, body⟩ :=
      Handler.dispatch_calm sturdy w id fun op => small _ read op
    dsimp only
    cases run : Handler.dispatch w fs id { srv := srv, body := body } with
    | ok out ctx => exact ⟨_, _, rfl⟩
    | error e ctx =>
      cases e with
      | errno e => exact ⟨_, _, rfl⟩
      | panic => exact (calm ctx run).elim

end Answers

end Rv64Js.P9
