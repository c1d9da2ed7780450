import Rv64Js.P9.Posix
import Rv64Js.P9.Requests

/-! # What a request does to the fid table

Most handlers leave the table alone, and one that fails does.  `Twalk` sets the new fid however
far it got. -/

set_option autoImplicit false

namespace Rv64Js.P9

open Fallible Function

variable {σ : Type}

namespace Handler

variable {fs : FsBackend σ} {α β : Type} {ctx ctx' : Ctx σ}

def SameFids (c c' : Ctx σ) : Prop := c'.srv.fids = c.srv.fids

theorem SameFids.trans (a b c : Ctx σ) (first : SameFids a b) (second : SameFids b c) :
    SameFids a c :=
  Eq.trans second first

theorem ask_along (op : Op) : Along (fun c c' => c'.body = c.body ∧ SameFids c c') (ask fs op) := by
  intro ctx
  unfold ask zoom
  cases fs.call op ctx.srv.fs <;> exact ⟨rfl, rfl⟩

variable {S : Prop} {Q : α → Prop} {m : Handler σ α}

theorem Shape.sameFids (shape : Shape fs (fun _ => True) S Q m) : Along SameFids m ∧ Returns Q m :=
  shape.along (R := SameFids) (fun _ => rfl) SameFids.trans (fun _ _ => rfl) fun op ctx =>
    (ask_along op ctx).2

/-- A failed run moves no fid; a panic needs `S`. -/
def Tidy (S : Prop) (m : Handler σ α) : Prop :=
  ∀ ctx e ctx', m ctx = .error e ctx' → SameFids ctx ctx' ∧ (e = .panic → S)

theorem Tidy.of_finishes (finishes : Finishes m) : Tidy S m := by
  intro ctx e ctx' run
  obtain ⟨a, ctx'', run'⟩ := finishes ctx
  rw [run] at run'
  cases run'

theorem Tidy.bind {k : α → Handler σ β} (kept : Along SameFids m ∧ Returns Q m) (first : Tidy S m)
    (rest : ∀ a, Q a → Tidy S (k a)) : Tidy S (m >>= k) := by
  intro ctx e ctx' run
  cases ran : m ctx with
  | ok a ctx₁ =>
    rw [bind_ok k ran] at run
    have ends := rest a (kept.2 ctx a ctx₁ ran) ctx₁ e ctx' run
    exact ⟨.trans _ _ _ (kept.1.of_ok ran) ends.1, ends.2⟩
  | error e₁ ctx₁ =>
    rw [bind_error k ran] at run
    cases run
    exact first ctx _ _ ran

section

variable (panics : ∀ op s s', fs.call op s = .error .panic s' → op.Sets ∨ S)

include panics

theorem Shape.tidy (shape : Shape fs (fun _ => True) S Q m) : Tidy S m := by
  have asks (op : Op) (sets : op.Sets → S) : Tidy S (.ask fs op) := by
    intro ctx e ctx' run
    refine ⟨((Undoes.of_along (ask_along op)) ctx e ctx' run).2, fun panic => ?_⟩
    unfold Handler.ask zoom at run
    cases called : fs.call op ctx.srv.fs with
    | ok v s =>
      rw [called] at run
      cases run
    | error e₁ s =>
      rw [called] at run
      cases run
      exact (panics op _ s (panic ▸ called)).elim sets id
  induction shape with
  | pure value => exact .of_finishes (.pure _)
  | err e => rintro ctx _ _ ⟨⟩; exact ⟨rfl, nofun⟩
  | field take =>
    intro ctx e ctx' run
    unfold Handler.field at run
    cases read : take ctx.body <;> rw [read] at run <;> cases run
    exact ⟨rfl, nofun⟩
  | server => exact .of_finishes fun ctx => ⟨_, ctx, rfl⟩
  | lookup fid =>
    intro ctx e ctx' run
    unfold lookupFid at run
    cases found : ctx.srv.fids fid <;> rw [found] at run <;> cases run
    exact ⟨rfl, nofun⟩
  | ask op sets => exact asks op sets
  | attempt path =>
    intro ctx e ctx' run
    refine asks (.lstat path) nofun ctx e ctx' ?_
    unfold Fallible.attempt at run
    cases asked : Handler.ask fs (.lstat path) ctx with
    | ok v s =>
      rw [asked] at run
      cases run
    | error e₁ s =>
      rw [asked] at run
      dsimp only at run
      split at run <;> cases run
      rfl
  | bind first _ ih ih' => exact .bind first.sameFids ih ih'

theorem Tidy.after {k : α → Handler σ β} (shape : Shape fs (fun _ => True) S Q m)
    (rest : ∀ a, Tidy S (k a)) : Tidy S (m >>= k) :=
  .bind shape.sameFids (shape.tidy panics) fun a _ => rest a

end

theorem field_eq_ok {take : List Byte → Option (α × List Byte)} {a : α}
    (run : field take ctx = .ok a ctx') :
    ∃ rest, take ctx.body = some (a, rest) ∧ ctx' = { ctx with body := rest } := by
  unfold field at run
  cases read : take ctx.body with
  | none =>
    rw [read] at run
    cases run
  | some read' =>
    rw [read] at run
    cases run
    exact ⟨_, rfl, rfl⟩

theorem lookupFid_some {fid : BitVec 32} {f : Fid} (found : ctx.srv.fids fid = some f) :
    lookupFid fid ctx = .ok f ctx := by
  simp only [lookupFid, found]

theorem lookupFid_none {fid : BitVec 32} (found : ctx.srv.fids fid = none) :
    lookupFid fid ctx = .error (.errno EPROTO) ctx := by
  simp only [lookupFid, found]

theorem fidPath_eq_ok {fid : BitVec 32} {path : Str} (run : fidPath fid ctx = .ok path ctx') :
    ∃ f, ctx.srv.fids fid = some f ∧ path = f.path ∧ ctx' = ctx := by
  cases found : ctx.srv.fids fid with
  | none =>
    rw [fidPath, bind_error _ (lookupFid_none found)] at run
    cases run
  | some f =>
    rw [fidPath, bind_ok _ (lookupFid_some found)] at run
    cases run
    exact ⟨f, rfl, rfl, rfl⟩

theorem dropFid_run (fs : FsBackend σ) (fid : BitVec 32) (ctx : Ctx σ) :
    ∃ ctx', dropFid fs fid ctx = .ok () ctx' ∧
    ctx'.srv.fids = update ctx.srv.fids fid none := by
  have server_run : (server : Handler σ (Server σ)) ctx = .ok ctx.srv ctx := rfl
  unfold dropFid
  rw [bind_ok _ server_run]
  cases found : ctx.srv.fids fid with
  | none => exact ⟨ctx, rfl, (update_eq_self_iff.mpr found.symm).symm⟩
  | some old =>
    cases opened : old.opened with
    | false =>
      simp only [opened]
      exact ⟨_, rfl, rfl⟩
    | true =>
      simp only [opened]
      obtain ⟨v, s, closed⟩ := fs.close_ok old.path ctx.srv.fs
      let gone : Server σ := { ctx.srv with fids := update ctx.srv.fids fid none }
      have asked : ask fs (.close old.path) ⟨gone, ctx.body⟩ =
          .ok v ⟨gone.called (.close old.path) s, ctx.body⟩ := by
        unfold ask zoom
        simp only [gone, closed]
      exact ⟨_, asked, rfl⟩

theorem setFid_run (fs : FsBackend σ) (fid : BitVec 32) (path : Str) (ctx : Ctx σ) :
    ∃ ctx', setFid fs fid path ctx = .ok () ctx' ∧
      ctx'.srv.fids = update ctx.srv.fids fid (some ⟨path, false, none⟩) := by
  obtain ⟨ctx', dropped, fids⟩ := dropFid_run fs fid ctx
  refine ⟨_, bind_ok _ dropped, ?_⟩
  change update ctx'.srv.fids fid _ = _
  rw [fids, update_idem]

end Handler

/-! ## A walk -/

/-- The names a walk asks for, as far as the request holds them. -/
def walkedNames : Nat → List Byte → List Str
  | 0, _ => []
  | n + 1, body =>
    match takeStr body with
    | none => []
    | some (name, rest) => name :: walkedNames n rest

/-- Fid, new fid and names of a `Twalk`. -/
def walkFields (body : List Byte) : Option (BitVec 32 × BitVec 32 × List Str) := do
  let (fid, rest) ← takeNumber 32 4 body
  let (newfid, rest) ← takeNumber 32 4 rest
  let (nwname, rest) ← takeNumber 16 2 rest
  pure (fid, newfid, walkedNames nwname.toNat rest)

namespace Handler

variable {fs : FsBackend σ} {ctx ctx' : Ctx σ}

theorem walkNames_eq_ok {n : Nat} {path path' : Str} {qids qids' : List Qid}
    (run : walkNames fs n path qids ctx = .ok (path', qids') ctx') :
    ∃ walked, walked <+: walkedNames n ctx.body ∧ walked.foldlM join path = some path' ∧
      qids'.length = qids.length + walked.length := by
  induction n generalizing path qids ctx with
  | zero =>
    cases run
    exact ⟨[], List.nil_prefix, rfl, rfl⟩
  | succ n ih =>
    obtain ⟨name, ctx₁, read, run⟩ := bind_eq_ok run
    obtain ⟨rest, taken, rfl⟩ := field_eq_ok read
    cases joined : join path name with
    | none =>
      simp only [joined] at run
      cases run
      exact ⟨[], List.nil_prefix, rfl, rfl⟩
    | some next =>
      simp only [joined] at run
      obtain ⟨found, ctx₂, asked, run⟩ := bind_eq_ok run
      cases found with
      | none =>
        cases run
        exact ⟨[], List.nil_prefix, rfl, rfl⟩
      | some attr =>
        have body := (((ask_along (.lstat next)).attempt Fail.isErrno).of_ok asked).1
        obtain ⟨walked, names, leads, count⟩ := ih run
        refine ⟨name :: walked, ?_, ?_, ?_⟩
        · rw [walkedNames, taken]
          rw [body] at names
          exact List.cons_prefix_cons.mpr ⟨rfl, names⟩
        · rw [List.foldlM_cons, joined]
          exact leads
        · simp only [count, List.length_append, List.length_cons, List.length_nil]
          omega

/-- A request that fails, for whatever reason, moves no fid. -/
theorem dispatch_tidy {S : Prop} (panics : ∀ op s s', fs.call op s = .error .panic s' → op.Sets ∨ S)
    (w : Nat) (id : Byte)
    (given : id = T_WRITE ∨ id = T_SETATTR → S) : Tidy S (dispatch w fs id) := by
  have reads {α β : Type} {take : List Byte → Option (α × List Byte)} {k : α → Handler σ β}
      (rest : ∀ a, Tidy S (k a)) : Tidy S (field take >>= k) := .after panics (.field take) rest
  have asks {β : Type} {op : Op} (plain : ¬op.Sets) {k : op.Value → Handler σ β}
    (rest : ∀ v, Tidy S (k v)) :
      Tidy S (ask fs op >>= k) :=
    .after panics (.ask op (absurd · plain) fun _ _ => trivial) rest
  have sets (fid : BitVec 32) (path : Str) (out : List Byte) :
      Tidy S (setFid fs fid path >>= fun _ => pure out) :=
    .of_finishes fun ctx => by
      obtain ⟨ctx', set, -⟩ := setFid_run fs fid path ctx
      exact ⟨out, ctx', bind_ok _ set⟩
  refine dispatch_rule closed_true w id given (fun _ => ?version) (fun _ => ?attach)
    (fun _ => ?walk)
    (fun _ => ?clunk) (fun _ => ?lopen) (fun _ => ?lcreate) (fun _ => ?readdir) (·.tidy panics)
  case version => exact reads fun _ => reads fun _ => .of_finishes fun ctx => ⟨_, _, rfl⟩
  case attach =>
    exact reads fun fid => reads fun _ => reads fun _ => reads fun _ =>
      asks (by exact nofun) fun _ => sets fid [] _
  case walk =>
    exact reads fun fid => reads fun newfid => reads fun n => .after panics (.fidPath fid) fun _ =>
      .after panics (.walkNames closed_true n.toNat [] trivial) fun found => sets newfid found.1 _
  case clunk =>
    refine reads fun fid => .of_finishes fun ctx => ?_
    obtain ⟨ctx', dropped, -⟩ := dropFid_run fs fid ctx
    exact ⟨_, ctx', bind_ok _ dropped⟩
  case lopen =>
    exact reads fun fid => reads fun _ => .after panics (.fidPath fid) fun _ =>
      asks (by exact nofun) fun _ =>
      .after panics (.lookup fid) fun _ => .of_finishes fun ctx => ⟨_, _, rfl⟩
  case lcreate =>
    exact reads fun fid => reads fun name => reads fun _ => reads fun _ => reads fun _ =>
      .after panics (.child closed_true fid name) fun _ => asks (by exact nofun) fun _ =>
      .after panics (.lookup fid) fun _ => .of_finishes fun ctx => ⟨_, _, rfl⟩
  case readdir =>
    refine reads fun fid => reads fun offset => reads fun _ => ?_
    simp only [readdir, bind_assoc]
    exact .after panics (.openedFid fid) fun f =>
      .after panics (.snapshot closed_true trivial offset) fun _ =>
      .of_finishes fun ctx => ⟨_, _, rfl⟩

end Handler

/-- A failed walk moves no fid.  Any other, complete or not, moves the new fid to where the names
that have a qid in the answer lead, and no other fid. -/
def Walked (srv : Server σ) (body : List Byte) : EStateM.Result Fail (Ctx σ) (List Byte) → Prop
  | .error _ ctx => ctx.srv.fids = srv.fids
  | .ok out ctx =>
    ∃ (fid newfid : BitVec 32) (names walked : List Str) (f : Fid) (path : Str) (qids : List Qid),
      walkFields body = some (fid, newfid, names) ∧ srv.fids fid = some f ∧
      walked <+: names ∧ walked.foldlM join f.path = some path ∧ qids.length = walked.length ∧
      out = le16 (BitVec.ofNat 16 qids.length) ++ qids.flatMap leQid ∧
      ctx.srv.fids = Function.update srv.fids newfid (some ⟨path, false, none⟩)

theorem walk_moves_newfid (w : Nat) (fs : FsBackend σ) (srv : Server σ) (body : List Byte) :
    Walked srv body (Handler.dispatch w fs T_WALK { srv := srv, body := body }) := by
  change Walked srv body (Handler.tWalk fs { srv := srv, body := body })
  cases run : Handler.tWalk fs { srv := srv, body := body } with
  | error e ctx =>
    exact (Handler.dispatch_tidy (S := True) (fun _ _ _ _ => .inr trivial) w T_WALK
      (fun _ => trivial) _ _ _ run).1
  | ok out ctx =>
    obtain ⟨fid, ctx₁, read, run⟩ := bind_eq_ok run
    obtain ⟨rest₁, taken₁, rfl⟩ := Handler.field_eq_ok read
    obtain ⟨newfid, ctx₂, read, run⟩ := bind_eq_ok run
    obtain ⟨rest₂, taken₂, rfl⟩ := Handler.field_eq_ok read
    obtain ⟨n, ctx₃, read, run⟩ := bind_eq_ok run
    obtain ⟨rest₃, taken₃, rfl⟩ := Handler.field_eq_ok read
    obtain ⟨start, ctx₄, looked, run⟩ := bind_eq_ok run
    obtain ⟨f, found, rfl, rfl⟩ := Handler.fidPath_eq_ok looked
    obtain ⟨⟨path, qids⟩, ctx₅, walk, run⟩ := bind_eq_ok run
    obtain ⟨walked, names, leads, count⟩ := Handler.walkNames_eq_ok walk
    obtain ⟨ctx₆, set, moved⟩ := Handler.setFid_run fs newfid path ctx₅
    cases (bind_ok _ set).symm.trans run
    refine ⟨fid, newfid, _, walked, f, path, qids, ?_, found, names, leads, by simpa using count,
      rfl, ?_⟩
    · simp only [walkFields, taken₁, taken₂, taken₃, Option.bind_eq_bind, Option.bind_some,
        Option.pure_def]
    · rw [moved,
        (Handler.Shape.walkNames (S := True) Handler.closed_true n.toNat []
          trivial).sameFids.1.of_ok walk]

namespace ShortWalk

def server : Server MemFs :=
  { Server.new MemFs.new with
    fids :=
      fun fid => if fid = 0 then some ⟨[], false, none⟩ else if fid = 1 then
        some ⟨['/', 'a'], true, none⟩ else none }

/-- From fid 0 to fid 1 by a name that is not there. -/
def request : List Byte := reply T_WALK 0 (le32 0 ++ le32 1 ++ le16 1 ++ leStr ['b'])

end ShortWalk

open ShortWalk in
/-- No name is walked; the open fid 1 is moved to the root and closed. -/
theorem short_walk_moves :
    (server.handle 64 (MemFs.backend 64) request).1 = some (reply (T_WALK + 1) 0 (le16 0)) ∧
    server.fids 1 = some ⟨['/', 'a'], true, none⟩ ∧
    (server.step 64 (MemFs.backend 64) request).fids 1 = some ⟨[], false, none⟩ := by
  decide +kernel

end Rv64Js.P9
