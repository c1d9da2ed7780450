import Rv64Js.P9.Requests

/-! # Every path is in normal form

Only paths from fids and from `join` reach the backend or a fid. An invariant of the files that the
backend keeps on normal paths is therefore an invariant of the server, whatever bytes the guest
sends. -/

set_option autoImplicit false

namespace Rv64Js.P9

open Fallible

variable {σ : Type}

/-- Calls on paths in normal form keep `K`. -/
def FsBackend.Keeps (fs : FsBackend σ) (K : σ → Prop) : Prop :=
  ∀ op, (∀ path ∈ op.paths, Normal path) → Preserves K (fun _ => True) (fs.call op)

/-- Fids and calls have paths in normal form, and the files are in `K`. -/
structure Server.Sound (K : σ → Prop) (srv : Server σ) : Prop where
  paths : ∀ fid f, srv.fids fid = some f → Normal f.path
  files : K srv.fs
  calls : ∀ op ∈ srv.calls, ∀ path ∈ op.paths, Normal path

namespace Handler

abbrev Safe {α : Type} (K : σ → Prop) (Q : α → Prop) (m : Handler σ α) : Prop :=
  Preserves (fun ctx => ctx.srv.Sound K) Q m

section Rules

variable {K : σ → Prop} {α β : Type} {Q : α → Prop}

theorem Safe.err (e : Errno) : Safe K Q (err e : Handler σ α) := .throw _

theorem Safe.modifyServer {f : Server σ → Server σ} (kept : ∀ srv, srv.Sound K → (f srv).Sound K) :
    Safe K (fun _ => True) (modifyServer f) := fun _ sound => ⟨kept _ sound, trivial⟩

variable {fs : FsBackend σ}

theorem Safe.ask (keeps : fs.Keeps K) (op : Op) (normal : ∀ path ∈ op.paths, Normal path) :
    Safe K (fun _ => True) (ask fs op) :=
  (keeps op normal).zoom (fun _ sound => sound.files) fun _ _ sound kept =>
    ⟨sound.paths, kept,
      List.forall_mem_append.mpr ⟨sound.calls, List.forall_mem_singleton.mpr normal⟩⟩

/-- By induction on the shape. -/
theorem Shape.safe (keeps : fs.Keeps K) {m : Handler σ α} (shape : Shape fs Normal True Q m) :
    Safe K Q m := by
  induction shape with
  | pure value => exact .pure value
  | err e => exact .err e
  | field take =>
    intro ctx sound
    unfold Handler.field
    cases take ctx.body with
    | none => exact sound
    | some read => exact ⟨sound, trivial⟩
  | server => exact fun _ sound => ⟨sound, trivial⟩
  | lookup fid =>
    intro ctx sound
    unfold Handler.lookupFid
    cases found : ctx.srv.fids fid with
    | none => exact sound
    | some f => exact ⟨sound, sound.paths fid f found⟩
  | ask op _ paths => exact .ask keeps op paths
  | attempt path known =>
    exact ((Safe.ask keeps (.lstat path) (only known)).attempt Fail.isErrno).weaken fun _ _ =>
      trivial
  | bind _ _ first rest => exact .bind first rest

theorem Safe.putFid (fid : BitVec 32) {f : Option Fid} (normal : ∀ g, f = some g → Normal g.path) :
    Safe K (fun _ => True) (putFid fid f : Handler σ Unit) := by
  refine .modifyServer fun srv sound => ⟨fun fid' g at' => ?_, sound.files, sound.calls⟩
  by_cases same : fid' = fid
  · subst same
    exact normal g (by simpa using at')
  · exact sound.paths fid' g (by simpa [same] using at')

/-- The fid is set to a path in normal form, and the answer made. -/
theorem Safe.place (fid : BitVec 32) {path : Str} (normal : Normal path) {opened : Bool}
    {dir : Option (List DirEntry)} {k : Unit → Handler σ α} (rest : Safe K Q (k ())) :
    Safe K Q (.putFid fid (some ⟨path, opened, dir⟩) >>= k) :=
  .bind (Safe.putFid fid (by rintro g ⟨⟩; exact normal)) fun _ _ => rest

end Rules

/-! ## The requests that move a fid -/

section Messages

variable {K : σ → Prop} {fs : FsBackend σ} {α : Type} {Q : α → Prop} (keeps : fs.Keeps K)

include keeps

theorem Safe.read {β : Type} {take : List Byte → Option (β × List Byte)} {k : β → Handler σ α}
    (rest : ∀ b, Safe K Q (k b)) : Safe K Q (field take >>= k) :=
  .bind ((Shape.field take).safe keeps) fun b _ => rest b

theorem Safe.dropFid (fid : BitVec 32) : Safe K (fun _ => True) (dropFid fs fid) := by
  refine .bind (P := fun srv => srv.Sound K) (fun _ sound => ⟨sound, sound⟩) fun srv sound => ?_
  cases found : srv.fids fid with
  | none => exact .pure trivial
  | some old =>
    have closes := Safe.ask keeps (.close old.path) (only (sound.paths fid old found))
    exact .bind (Safe.putFid fid nofun) fun _ _ => .ite (fun _ => closes) fun _ => .pure trivial

theorem Safe.setFid (fid : BitVec 32) {path : Str} (normal : Normal path) {out : List Byte} :
    Safe K (fun _ => True) (Handler.setFid fs fid path >>= fun _ => pure out) := by
  unfold Handler.setFid
  rw [bind_assoc]
  exact .bind (Safe.dropFid keeps fid) fun _ _ => Safe.place fid normal (.pure trivial)

theorem dispatch_safe (w : Nat) (id : Byte) : Safe K (fun _ => True) (dispatch w fs id) := by
  have closed : Closed Normal :=
    ⟨normal_root, fun normal joined => normal.join joined, fun normal => normal.parent⟩
  have answer {β : Type} {out : Server σ → β} {out' : β → List Byte} :
      Safe K (fun _ => True) ((server >>= fun srv => pure (out srv)) >>= fun b => pure (out' b)) :=
    (Shape.out (.out .server out) out').safe keeps
  refine dispatch_rule closed w id (fun _ => trivial) (fun _ => ?version) (fun _ => ?attach)
    (fun _ => ?walk) (fun _ => ?clunk)
    (fun _ => ?lopen) (fun _ => ?lcreate) (fun _ => ?readdir) (·.safe keeps)
  case version =>
    refine .read keeps fun msize => .read keeps fun version => ?_
    refine .bind (Safe.modifyServer fun srv sound => ⟨by simp, sound.files, sound.calls⟩) fun _ _ =>
      ?_
    exact (Shape.out .server _).safe keeps
  case attach =>
    refine .read keeps fun fid => .read keeps fun _ => .read keeps fun _ => .read keeps fun _ => ?_
    exact .bind (Safe.ask keeps (.lstat []) (only normal_root)) fun _ _ =>
      Safe.setFid keeps fid normal_root
  case walk =>
    refine .read keeps fun fid => .read keeps fun newfid => .read keeps fun n => ?_
    refine .bind ((Shape.fidPath fid).safe keeps) fun start normal => ?_
    exact .bind ((Shape.walkNames closed n.toNat [] normal).safe keeps) fun found reached =>
      Safe.setFid keeps newfid reached
  case clunk =>
    exact Safe.read keeps fun fid => .bind (Safe.dropFid keeps fid) fun _ _ => .pure trivial
  case lopen =>
    refine .read keeps fun fid => .read keeps fun flags => ?_
    refine .bind ((Shape.fidPath fid).safe keeps) fun path normal => ?_
    refine .bind (Safe.ask keeps (.openFile path flags) (only normal)) fun attr _ => ?_
    exact .bind ((Shape.lookup fid).safe keeps) fun f normal => Safe.place fid normal answer
  case lcreate =>
    refine .read keeps fun fid => .read keeps fun name => .read keeps fun flags =>
      .read keeps fun mode => .read keeps fun _ => ?_
    refine .bind ((Shape.child closed fid name).safe keeps) fun path normal => ?_
    refine .bind (Safe.ask keeps (.create path flags mode) (only normal)) fun attr _ => ?_
    exact .bind ((Shape.lookup fid).safe keeps) fun f _ => Safe.place fid normal answer
  case readdir =>
    refine .read keeps fun fid => .read keeps fun offset => .read keeps fun count =>
      .bind (P := fun _ => True) ?_ fun _ _ => .pure trivial
    refine .bind ((Shape.openedFid fid).safe keeps) fun f normal => ?_
    exact .bind ((Shape.snapshot closed normal offset).safe keeps) fun entries _ =>
      Safe.place fid normal answer

end Messages

end Handler

namespace Server

variable {K : σ → Prop} {fs : FsBackend σ}

theorem Sound.new (files : σ) (holds : K files) : (Server.new files).Sound K :=
  ⟨by simp [Server.new], holds, by simp [Server.new]⟩

theorem Sound.step (keeps : fs.Keeps K) (w : Nat) {srv : Server σ} (sound : srv.Sound K)
    (req : List Byte) : (step w fs srv req).Sound K := by
  unfold Server.step Server.handle
  cases header req with
  | none => exact sound
  | some message =>
    obtain ⟨id, tag, body⟩ := message
    have ends := Handler.dispatch_safe keeps w id { srv := srv, body := body } sound
    dsimp only
    cases done : Handler.dispatch w fs id { srv := srv, body := body } with
    | ok out ctx => rw [done] at ends; exact ends.1
    | error e ctx =>
      rw [done] at ends
      cases e with
      | errno e => exact ends
      | panic => exact ends

theorem Sound.run (keeps : fs.Keeps K) (w : Nat) {srv : Server σ} (sound : srv.Sound K)
    (reqs : List (List Byte)) : (Events.run (Server.step w fs) srv reqs).Sound K := by
  induction reqs generalizing srv with
  | nil => exact sound
  | cons req reqs ih => exact ih (sound.step keeps w req)

end Server

/-- Whatever the guest sends, every path of a fid and every path handed to the backend is in
normal form. -/
theorem paths_stay_normal (w : Nat) (fs : FsBackend σ) (files : σ) (reqs : List (List Byte)) :
    (∀ fid f, (Server.run w fs files reqs).fids fid = some f → Normal f.path) ∧
      ∀ op ∈ (Server.run w fs files reqs).calls, ∀ path ∈ op.paths, Normal path := by
  have keeps : fs.Keeps fun _ => True := fun op _ s _ => by
    cases fs.call op s <;> trivial
  have done := (Server.Sound.new files trivial).run keeps w reqs
  exact ⟨done.paths, done.calls⟩

end Rv64Js.P9
