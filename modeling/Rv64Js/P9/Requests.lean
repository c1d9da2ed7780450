import Rv64Js.P9.Server

/-! # How requests are carried out

A request reads its fields, looks fids up and calls the backend with the paths it gets that way.
What that keeps follows by induction on `Shape`; the requests that move a fid are left to the user
of `dispatch_rule`. -/

set_option autoImplicit false

namespace Rv64Js.P9

open Fallible

variable {σ : Type}

/-- The calls that are given a length or a time. -/
def Op.Sets : Op → Prop
  | .write .. | .truncate .. | .setTimes .. => True
  | _ => False

namespace Handler

/-- Computations that move no fid, with what is known of their values. `N` holds of the paths of
fids and of those the backend is given, `S` if a length or a time is set. -/
inductive Shape (fs : FsBackend σ) (N : Str → Prop) (S : Prop) :
    {α : Type} → (Q : α → Prop) → Handler σ α → Prop
  | pure {α : Type} {Q : α → Prop} {a : α} (value : Q a) : Shape fs N S Q (Pure.pure a)
  | err {α : Type} {Q : α → Prop} (e : Errno) : Shape fs N S Q (err e)
  | field {α : Type} (take : List Byte → Option (α × List Byte)) :
    Shape fs N S (fun _ => True) (field take)
  | server : Shape fs N S (fun _ => True) server
  | lookup (fid : BitVec 32) : Shape fs N S (fun f => N f.path) (lookupFid fid)
  | ask (op : Op) (sets : op.Sets → S) (paths : ∀ p ∈ op.paths, N p) :
      Shape fs N S (fun _ => True) (ask fs op)
  | attempt (path : Str) (known : N path) :
      Shape fs N S (fun _ => True) (Fallible.attempt Fail.isErrno (ask fs (.lstat path)))
  | bind {α β : Type} {P : α → Prop} {Q : β → Prop} {m : Handler σ α} {k : α → Handler σ β}
      (first : Shape fs N S P m) (rest : ∀ a, P a → Shape fs N S Q (k a)) : Shape fs N S Q (m >>= k)

/-- `N` holds of what paths are made of. -/
structure Closed (N : Str → Prop) : Prop where
  root : N []
  join : ∀ {dir name path : Str}, N dir → join dir name = some path → N path
  parent : ∀ {path : Str}, N path → N (parent path)

theorem closed_true : Closed fun _ => True := ⟨trivial, fun _ _ => trivial, fun _ => trivial⟩

theorem only {N : Str → Prop} {path : Str} (known : N path) :
    ∀ p ∈ [path], N p := List.forall_mem_singleton.mpr known

theorem both {N : Str → Prop} {path path' : Str} (known : N path) (known' : N path') :
    ∀ p ∈ [path, path'], N p :=
  List.forall_mem_cons.mpr ⟨known, only known'⟩

namespace Shape

variable {fs : FsBackend σ} {N : Str → Prop} {S : Prop} {α : Type} {Q : α → Prop}

theorem read {β : Type} {take : List Byte → Option (β × List Byte)} {k : β → Handler σ α}
    (rest : ∀ b, Shape fs N S Q (k b)) : Shape fs N S Q (.field take >>= k) :=
  .bind (.field take) fun b _ => rest b

theorem ite {p : Prop} [Decidable p] {m n : Handler σ α} (yes : Shape fs N S Q m)
    (no : Shape fs N S Q n) : Shape fs N S Q (if p then m else n) := by
  by_cases h : p
  · rw [if_pos h]; exact yes
  · rw [if_neg h]; exact no

theorem change {wanted : Bool} {m : Handler σ Unit} (asks : Shape fs N S (fun _ => True) m) :
    Shape fs N S (fun _ => True) (change wanted m) := ite asks (.pure trivial)

theorem fidPath (fid : BitVec 32) : Shape fs N S N (fidPath fid) :=
  .bind (.lookup fid) fun _ known => .pure known

theorem openedFid (fid : BitVec 32) : Shape fs N S (fun f => N f.path) (openedFid fid) :=
  .bind (.lookup fid) fun _ known => .ite (.pure known) (.err EPROTO)

theorem out {β : Type} {m : Handler σ α} (first : Shape fs N S Q m) (f : α → β) :
    Shape fs N S (fun _ => True) (m >>= fun a => Pure.pure (f a)) :=
  .bind first fun _ _ => .pure trivial

theorem call {op : Op} {β : Type} {f : op.Value → β} (sets : op.Sets → S)
    (paths : ∀ p ∈ op.paths, N p) :
    Shape fs N S (fun _ => True) (Handler.ask fs op >>= fun v => Pure.pure (f v)) :=
  .out (.ask op sets paths) f

variable (closed : Closed N)

include closed

theorem child (dfid : BitVec 32) (name : Str) : Shape fs N S N (child dfid name) := by
  refine .bind (fidPath dfid) fun dir known => ?_
  cases joined : P9.join dir name with
  | none => exact .err EINVAL
  | some path => exact .pure (closed.join known joined)

theorem walkNames (n : Nat) : ∀ {path : Str} (qids : List Qid), N path →
    Shape fs N S (fun found => N found.1) (walkNames fs n path qids) := by
  induction n with
  | zero => exact fun qids known => .pure known
  | succ n ih =>
    refine fun {path} qids known => read fun name => ?_
    cases joined : P9.join path name with
    | none => exact .pure known
    | some next =>
      have further := closed.join known joined
      refine .bind (.attempt next further) fun found _ => ?_
      cases found with
      | none => exact .pure known
      | some attr => exact ih _ further

theorem snapshot {f : Fid} (known : N f.path) (offset : BitVec 64) :
    Shape fs N S (fun _ => True) (snapshot fs f offset) := by
  have taken : Shape fs N S (fun _ => True) (listing fs f.path) :=
    .bind (.ask (.lstat f.path) nofun (only known)) fun _ _ =>
      .bind (.ask (.lstat (P9.parent f.path)) nofun (only (closed.parent known))) fun _ _ =>
        .out (.ask (.readdir f.path) nofun (only known)) _
  unfold Handler.snapshot
  cases f.dir with
  | none => exact taken
  | some entries => exact .ite taken (.pure trivial)

omit closed in
/-- A preorder with the reading of a field and every call of the backend has every such
computation. -/
theorem along {R : Ctx σ → Ctx σ → Prop} (refl : ∀ c, R c c)
    (trans : ∀ a b c, R a b → R b c → R a c) (fields : ∀ c body, R c { c with body := body })
    (asks : ∀ op, Along R (Handler.ask fs op)) {m : Handler σ α}
    (shape : Shape fs (fun _ => True) S Q m) : Along R m ∧ Returns Q m := by
  have same {γ : Type} {m : Handler σ γ} (along : Along R m) : Along R m ∧
      Returns (fun _ => True) m :=
    ⟨along, fun _ _ _ _ => trivial⟩
  induction shape with
  | pure value => exact ⟨.pure refl _, .pure value⟩
  | err e => exact ⟨.throw refl _, .throw _⟩
  | field take =>
    refine same fun ctx => ?_
    unfold Handler.field
    cases take ctx.body with
    | none => exact refl ctx
    | some read => exact fields ctx read.2
  | server => exact same refl
  | lookup fid =>
    refine same fun ctx => ?_
    unfold lookupFid
    cases ctx.srv.fids fid <;> exact refl ctx
  | ask op => exact same (asks op)
  | attempt path => exact same ((asks (.lstat path)).attempt Fail.isErrno)
  | bind _ _ first rest =>
    refine ⟨Along.bind_run (fun ctx e ctx' run => Undoes.of_along first.1 ctx e ctx' run) fun ctx a
      ctx' run => ?_,
      fun ctx b ctx'' run => ?_⟩
    · exact trans _ _ _ (first.1.of_ok run) ((rest a (first.2 ctx a ctx' run)).1 ctx')
    · obtain ⟨a, ctx', run, run'⟩ := bind_eq_ok run
      exact (rest a (first.2 ctx a ctx' run)).2 ctx' b ctx'' run'

end Shape

/-! ## Messages -/

variable {fs : FsBackend σ} {N : Str → Prop} {S : Prop}

theorem tSetattr_shape (sets : S) : Shape fs N S (fun _ => True) (tSetattr fs) := by
  refine .read fun fid => .read fun valid => .read fun mode => .read fun uid => .read fun gid =>
    .read fun size =>
    .read fun _ => .read fun _ => .read fun _ => .read fun _ =>
      .bind (.fidPath fid) fun path known => ?_
  exact .bind (.change (.ask (.setOwner ..) nofun (only known))) fun _ _ =>
    .bind (.change (.ask (.truncate ..) (fun _ => sets) (only known))) fun _ _ =>
    .bind (.change (.ask (.setTimes ..) (fun _ => sets) (only known))) fun _ _ =>
    .bind (.change (.ask (.setMode ..) nofun (only known))) fun _ _ => .pure trivial

theorem tWrite_shape (sets : S) : Shape fs N S (fun _ => True) (tWrite fs) :=
  .read fun fid => .read fun _ => .read fun _ => .read fun _ =>
    .bind (.openedFid fid) fun _ known =>
    .call (fun _ => sets) (only known)

/-- A property that handlers have by their shape is one of every request if those that move fids
have it. -/
theorem dispatch_rule {T : Handler σ (List Byte) → Prop} (closed : Closed N) (w : Nat) (id : Byte)
    (sets : id = T_WRITE ∨ id = T_SETATTR → S) (version : id = T_VERSION → T tVersion)
    (attach : id = T_ATTACH → T (tAttach fs)) (walk : id = T_WALK → T (tWalk fs))
    (clunk : id = T_CLUNK → T (tClunk fs)) (lopen : id = T_LOPEN → T (tLopen fs))
    (lcreate : id = T_LCREATE → T (tLcreate fs)) (readdir : id = T_READDIR → T (tReaddir w fs))
    (shape : ∀ {m}, Shape fs N S (fun _ => True) m → T m) : T (dispatch w fs id) := by
  have pick {p : Prop} [Decidable p] {m n : Handler σ (List Byte)} (yes : p → T m) (no : ¬p → T n) :
      T (if p then m else n) := by
    by_cases h : p
    · rw [if_pos h]; exact yes h
    · rw [if_neg h]; exact no h
  have plain {p : Prop} [Decidable p] {m n : Handler σ (List Byte)}
    (yes : Shape fs N S (fun _ => True) m)
      (no : T n) : T (if p then m else n) := pick (fun _ => shape yes) fun _ => no
  refine pick version fun _ => pick attach fun _ => pick walk fun _ => pick clunk fun _ =>
    plain ?statfs (plain ?getattr
    (pick (fun setattr => shape (tSetattr_shape (sets (.inr setattr)))) fun _ => pick lopen fun _ =>
    pick lcreate fun _ =>
      plain ?read (pick (fun write => shape (tWrite_shape (sets (.inl write)))) fun _ =>
    pick readdir fun _ =>
      plain ?mkdir
        (plain ?unlinkat
          (plain ?renameat (plain ?symlink (plain ?readlink (plain ?link (plain ?mknod
    (plain (.pure trivial)
      (plain (.err _) (plain ?lock (plain ?getlock (shape (.err _)))))))))))))))
  case statfs => exact .read fun _ => .call nofun nofun
  case getattr =>
    exact .read fun fid => .read fun _ => .bind (.fidPath fid) fun _ known =>
      .call nofun (only known)
  case read =>
    exact .read fun fid => .read fun _ => .read fun count => .bind (.openedFid fid) fun f known =>
      .bind (.out .server _) fun _ _ => .call nofun (only known)
  case mkdir | symlink =>
    exact .read fun dfid => .read fun name => .read fun _ => .read fun _ =>
      .bind (.child closed dfid name) fun _ known => .call nofun (only known)
  case unlinkat =>
    exact .read fun dfid => .read fun name => .read fun _ =>
      .bind (.child closed dfid name) fun _ known => .call nofun (only known)
  case renameat =>
    exact .read fun dfid => .read fun name => .read fun dfid' => .read fun name' =>
      .bind (.child closed dfid name) fun _ known =>
        .bind (.child closed dfid' name') fun _ known' =>
      .call nofun (both known known')
  case readlink =>
    exact .read fun fid => .bind (.fidPath fid) fun _ known => .call nofun (only known)
  case link =>
    exact .read fun dfid => .read fun fid => .read fun name => .bind (.fidPath fid) fun _ known =>
      .bind (.child closed dfid name) fun _ known' => .call nofun (both known known')
  case mknod =>
    exact .read fun dfid => .read fun name => .read fun _ => .read fun _ => .read fun _ =>
      .read fun _ =>
      .bind (.child closed dfid name) fun _ known => .call nofun (only known)
  case lock => exact .read fun _ => .pure trivial
  case getlock =>
    exact .read fun _ => .read fun _ => .read fun _ => .read fun _ => .read fun _ => .read fun _ =>
      .pure trivial

end Handler

end Rv64Js.P9
