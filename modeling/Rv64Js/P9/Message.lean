import Rv64Js.P9.Path
import Mathlib.Data.BitVec

/-! # 9P2000.L messages

Constants of the protocol, the little-endian reader and writer of message bodies, and the
data a backend reports about a file. -/

set_option autoImplicit false

namespace Rv64Js.P9

open BitVec

abbrev Byte := BitVec 8

/-! ## Constants -/

def T_STATFS : Byte := 8
def T_LOPEN : Byte := 12
def T_LCREATE : Byte := 14
def T_SYMLINK : Byte := 16
def T_MKNOD : Byte := 18
def T_READLINK : Byte := 22
def T_GETATTR : Byte := 24
def T_SETATTR : Byte := 26
def T_XATTRWALK : Byte := 30
def T_READDIR : Byte := 40
def T_FSYNC : Byte := 50
def T_LOCK : Byte := 52
def T_GETLOCK : Byte := 54
def T_LINK : Byte := 70
def T_MKDIR : Byte := 72
def T_RENAMEAT : Byte := 74
def T_UNLINKAT : Byte := 76
def T_VERSION : Byte := 100
def T_ATTACH : Byte := 104
def T_FLUSH : Byte := 108
def T_WALK : Byte := 110
def T_READ : Byte := 116
def T_WRITE : Byte := 118
def T_CLUNK : Byte := 120
/-- The only reply whose id is not `request + 1`. -/
def R_LERROR : Byte := 7

def QT_DIR : Byte := 0x80
def QT_SYMLINK : Byte := 0x02
def QT_FILE : Byte := 0x00

def S_IFMT : BitVec 32 := 0xf000
def S_IFDIR : BitVec 32 := 0x4000
def S_IFREG : BitVec 32 := 0x8000
def S_IFLNK : BitVec 32 := 0xa000

def O_WRONLY : BitVec 32 := 0x1
def O_RDWR : BitVec 32 := 0x2
def O_TRUNC : BitVec 32 := 0x200

def SETATTR_MODE : BitVec 32 := 0x001
def SETATTR_UID : BitVec 32 := 0x002
def SETATTR_GID : BitVec 32 := 0x004
def SETATTR_SIZE : BitVec 32 := 0x008
def SETATTR_ATIME : BitVec 32 := 0x010
def SETATTR_MTIME : BitVec 32 := 0x020
def SETATTR_ATIME_SET : BitVec 32 := 0x080
def SETATTR_MTIME_SET : BitVec 32 := 0x100

def AT_REMOVEDIR : BitVec 32 := 0x200

abbrev Errno := Nat

def ENOENT : Errno := 2
def EIO : Errno := 5
def EEXIST : Errno := 17
def ENOTDIR : Errno := 20
def EISDIR : Errno := 21
def EINVAL : Errno := 22
def ENOTEMPTY : Errno := 39
def ELOOP : Errno := 40
def EPROTO : Errno := 71
def EOPNOTSUPP : Errno := 95

def MAX_MSIZE : Nat := 128 * 1024

def VERSION : Str := ['9', 'P', '2', '0', '0', '0', '.', 'L']

def UNKNOWN : Str := ['u', 'n', 'k', 'n', 'o', 'w', 'n']

/-! ## What a backend reports -/

/-- Server-side identity of a file, as the client caches it. -/
structure Qid where
  kind : Byte
  version : BitVec 32
  path : BitVec 64
deriving DecidableEq

def qidKind (mode : BitVec 32) : Byte :=
  if mode &&& S_IFMT = S_IFDIR then QT_DIR
  else if mode &&& S_IFMT = S_IFLNK then QT_SYMLINK
  else QT_FILE

def Qid.fromMode (mode : BitVec 32) (ino : BitVec 64) : Qid := ⟨qidKind mode, 0, ino⟩

abbrev Time := BitVec 64 × BitVec 64

structure Attr where
  qid : Qid
  mode : BitVec 32
  uid : BitVec 32
  gid : BitVec 32
  nlink : BitVec 64
  rdev : BitVec 64
  size : BitVec 64
  blksize : BitVec 64
  blocks : BitVec 64
  atime : Time
  mtime : Time
  ctime : Time
deriving DecidableEq

structure DirEntry where
  name : Str
  ino : BitVec 64
  mode : BitVec 32
deriving DecidableEq

structure StatFs where
  bsize : BitVec 32
  blocks : BitVec 64
  bfree : BitVec 64
  bavail : BitVec 64
  files : BitVec 64
  ffree : BitVec 64

/-! ## Text -/

def REPLACEMENT : Char := Char.ofNat 0xfffd

def isContinuation (b : Byte) : Bool := b &&& 0xc0 == 0x80

/-- Second byte of a three-byte character: no overlong form, no surrogate. -/
def second3 (lead b : Byte) : Bool :=
  if lead = 0xe0 then 0xa0 ≤ b ∧ b ≤ 0xbf
  else if lead = 0xed then 0x80 ≤ b ∧ b ≤ 0x9f
  else 0x80 ≤ b ∧ b ≤ 0xbf

/-- Second byte of a four-byte character: no overlong form, nothing past the last character. -/
def second4 (lead b : Byte) : Bool :=
  if lead = 0xf0 then 0x90 ≤ b ∧ b ≤ 0xbf
  else if lead = 0xf4 then 0x80 ≤ b ∧ b ≤ 0x8f
  else 0x80 ≤ b ∧ b ≤ 0xbf

/-- The character with the payload bits of the given bytes. -/
def charOf (lead : Nat) (rest : List Byte) : Char :=
  Char.ofNat (rest.foldl (fun n b => n * 64 + b.toNat % 64) lead)

/-- The character that starts with `b` and the number of further bytes it takes; past the end
of the text a byte reads as zero. -/
def nextChar (b : Byte) (rest : List Byte) : Char × Nat :=
  let c := rest.getD 0 0
  let d := rest.getD 1 0
  let e := rest.getD 2 0
  if b < 0x80 then (Char.ofNat b.toNat, 0)
  else if 0xc2 ≤ b ∧ b ≤ 0xdf then
    if isContinuation c then (charOf (b.toNat % 32) [c], 1) else (REPLACEMENT, 0)
  else if 0xe0 ≤ b ∧ b ≤ 0xef then
    if !second3 b c then (REPLACEMENT, 0)
    else if !isContinuation d then (REPLACEMENT, 1)
    else (charOf (b.toNat % 16) [c, d], 2)
  else if 0xf0 ≤ b ∧ b ≤ 0xf4 then
    if !second4 b c then (REPLACEMENT, 0)
    else if !isContinuation d then (REPLACEMENT, 1)
    else if !isContinuation e then (REPLACEMENT, 2)
    else (charOf (b.toNat % 8) [c, d, e], 3)
  else (REPLACEMENT, 0)

def decodeAfter : Nat → List Byte → Str
  | _, [] => []
  | skip + 1, _ :: rest => decodeAfter skip rest
  | 0, b :: rest => (nextChar b rest).1 :: decodeAfter (nextChar b rest).2 rest

/-- `String::from_utf8_lossy`: what is not UTF-8 becomes a replacement character. -/
def fromUtf8Lossy (bytes : List Byte) : Str := decodeAfter 0 bytes

def utf8 (s : Str) : List Byte := s.flatMap fun c => (String.utf8EncodeChar c).map UInt8.toBitVec

/-! ## Writing a body -/

def le {w : Nat} (n : Nat) (v : BitVec w) : List Byte :=
  (List.range n).map fun i => v.extractLsb' (8 * i) 8

def le16 (v : BitVec 16) : List Byte := le 2 v
def le32 (v : BitVec 32) : List Byte := le 4 v
def le64 (v : BitVec 64) : List Byte := le 8 v

def leStr (s : Str) : List Byte := le16 (BitVec.ofNat 16 (utf8 s).length) ++ utf8 s

def leQid (q : Qid) : List Byte := q.kind :: (le32 q.version ++ le64 q.path)

def reply (id : Byte) (tag : BitVec 16) (body : List Byte) : List Byte :=
  le32 (BitVec.ofNat 32 (body.length + 7)) ++ id :: (le16 tag ++ body)

def errBody (errno : Errno) : List Byte := le32 (BitVec.ofNat 32 errno)

/-! ## Reading a body -/

def leValue (w : Nat) (bytes : List Byte) : BitVec w :=
  BitVec.ofNat w (bytes.foldr (fun b n => b.toNat + 256 * n) 0)

def takeBytes (n : Nat) (body : List Byte) : Option (List Byte × List Byte) :=
  if n ≤ body.length then some (body.take n, body.drop n) else none

def takeNumber (w n : Nat) (body : List Byte) : Option (BitVec w × List Byte) :=
  (takeBytes n body).map fun (bytes, rest) => (leValue w bytes, rest)

def takeStr (body : List Byte) : Option (Str × List Byte) := do
  let (n, rest) ← takeNumber 16 2 body
  let (bytes, rest) ← takeBytes n.toNat rest
  pure (fromUtf8Lossy bytes, rest)

/-! ## What is written is read back -/

variable {w : Nat} (n : Nat) (v : BitVec w)

@[simp] theorem length_le : (le n v).length = n := by simp [le]

theorem le_succ : le (n + 1) v = v.extractLsb' 0 8 :: le n (v >>> 8) := by
  rw [le, List.range_succ_eq_map, List.map_cons, List.map_map, le]
  refine congrArg _ (List.map_congr_left fun i _ => ?_)
  refine eq_of_getElem_eq fun k _ => ?_
  simp only [Function.comp_apply, getElem_extractLsb', getLsbD_ushiftRight]
  congr 1
  omega

theorem value_le : (le n v).foldr (fun b m => b.toNat + 256 * m) 0 = v.toNat % 2 ^ (8 * n) := by
  induction n generalizing v with
  | zero => simp [le, Nat.mod_one]
  | succ n ih =>
    rw [le_succ, List.foldr_cons, ih, toNat_ushiftRight, extractLsb'_toNat, Nat.shiftRight_zero,
      Nat.shiftRight_eq_div_pow, Nat.mul_succ, Nat.add_comm (8 * n) 8, Nat.pow_add]
    exact (Nat.mod_mul ..).symm

theorem takeBytes_append (bytes rest : List Byte) :
    takeBytes bytes.length (bytes ++ rest) = some (bytes, rest) := by
  simp [takeBytes]

theorem takeNumber_le (v : BitVec (8 * n)) (rest : List Byte) :
    takeNumber (8 * n) n (le n v ++ rest) = some (v, rest) := by
  have taken : takeBytes n (le n v ++ rest) = some (le n v, rest) := by
    have taken := takeBytes_append (le n v) rest
    rwa [length_le] at taken
  have value : leValue (8 * n) (le n v) = v := by
    rw [leValue, value_le, Nat.mod_eq_of_lt v.isLt, ofNat_toNat, setWidth_eq]
  rw [takeNumber, taken]
  simp only [Option.map_some, value]

theorem le_value (bytes : List Byte) {w : Nat} (wide : 8 * bytes.length ≤ w) :
    bytes.foldr (fun b m => b.toNat + 256 * m) 0 < 2 ^ (8 * bytes.length) ∧
    le bytes.length (leValue w bytes) = bytes := by
  unfold leValue
  induction bytes with
  | nil => exact ⟨Nat.one_pos, rfl⟩
  | cons b bytes ih =>
    rw [List.length_cons] at wide ⊢
    obtain ⟨small, same⟩ := ih (by omega)
    rw [List.foldr_cons, le_succ]
    generalize bytes.foldr (fun b m => b.toNat + 256 * m) 0 = m at small same ⊢
    have whole : b.toNat + 256 * m < 2 ^ (8 * (bytes.length + 1)) := by
      rw [Nat.mul_succ, Nat.pow_add]
      omega
    have kept := Nat.mod_eq_of_lt (whole.trans_le (Nat.pow_le_pow_right (by decide) wide))
    refine ⟨whole, List.cons_eq_cons.mpr ⟨eq_of_toNat_eq ?_, ?_⟩⟩
    · rw [extractLsb'_toNat, toNat_ofNat, kept, Nat.shiftRight_zero]
      omega
    · have shifted : BitVec.ofNat w (b.toNat + 256 * m) >>> 8 = BitVec.ofNat w m := by
        refine BitVec.eq_of_toNat_eq ?_
        rw [toNat_ushiftRight, toNat_ofNat, kept, toNat_ofNat, Nat.shiftRight_eq_div_pow,
          Nat.mod_eq_of_lt (by omega)]
        omega
      rw [shifted, same]

theorem takeNumber_eq_some {n : Nat} {v : BitVec (8 * n)} {body rest : List Byte}
    (taken : takeNumber (8 * n) n body = some (v, rest)) : body = le n v ++ rest := by
  unfold takeNumber takeBytes at taken
  split at taken
  · rename_i long
    cases taken
    have length : (body.take n).length = n := List.length_take_of_le long
    have same := (le_value (body.take n) (w := 8 * n) (by rw [length])).2
    rw [length] at same
    rw [same, List.take_append_drop]
  · cases taken

/-! ## What was text is read back -/

theorem isContinuation_ofNat (v : Nat) : isContinuation (.ofNat 8 (v % 64 + 128)) = true := by
  have all : ∀ k < 64, isContinuation (.ofNat 8 (k + 128)) = true := by decide
  exact all _ (Nat.mod_lt _ (by decide))

/-- The first character of an encoded text. -/
theorem nextChar_utf8 (c : Char) (rest : List Byte) : ∃ lead tail,
    (String.utf8EncodeChar c).map UInt8.toBitVec = lead :: tail ∧
    nextChar lead (tail ++ rest) = (c, tail.length) := by
  have valid : c.toNat < 0xd800 ∨ 0xdfff < c.toNat ∧ c.toNat < 0x110000 := c.valid
  have char : ∀ n, n = c.toNat → Char.ofNat n = c := fun n same => same ▸ Char.ofNat_toNat c
  have val : c.val.toNat = c.toNat := rfl
  unfold String.utf8EncodeChar
  rw [val]
  dsimp only
  split_ifs with one two three
  on_goal 1 => refine ⟨_, [], rfl, ?_⟩
  on_goal 2 => refine ⟨_, [_], rfl, ?_⟩
  on_goal 3 => refine ⟨_, [_, _], rfl, ?_⟩
  on_goal 4 => refine ⟨_, [_, _, _], rfl, ?_⟩
  all_goals
    simp only [UInt8.toBitVec_ofNat', nextChar, charOf, second3, second4, isContinuation_ofNat,
      lt_def,
    le_def, ← toNat_inj, ofNat_eq_ofNat, toNat_ofNat, List.cons_append, List.nil_append,
    List.getD_cons_zero, List.getD_cons_succ, List.foldl, List.length]
  · rw [if_pos (by omega)]
    exact Prod.ext (char _ (by omega)) rfl
  · rw [if_neg (by omega), if_pos (by omega), if_pos trivial]
    exact Prod.ext (char _ (by omega)) rfl
  · rw [if_neg (by omega), if_neg (by omega), if_pos (by omega), if_neg ?_, if_neg (by decide)]
    · exact Prod.ext (char _ (by omega)) rfl
    · rw [Bool.not_eq_true', Bool.not_eq_false]
      split_ifs <;> simp only [decide_eq_true_eq] <;> omega
  · rw [if_neg (by omega), if_neg (by omega), if_neg (by omega), if_pos (by omega), if_neg ?_,
      if_neg (by decide), if_neg (by decide)]
    · exact Prod.ext (char _ (by omega)) rfl
    · rw [Bool.not_eq_true', Bool.not_eq_false]
      split_ifs <;> simp only [decide_eq_true_eq] <;> omega

theorem decodeAfter_length (skipped rest : List Byte) :
    decodeAfter skipped.length (skipped ++ rest) = decodeAfter 0 rest := by
  induction skipped with
  | nil => rfl
  | cons b skipped ih => exact ih

@[simp] theorem fromUtf8Lossy_utf8 (s : Str) : fromUtf8Lossy (utf8 s) = s := by
  induction s with
  | nil => rfl
  | cons c s ih =>
    obtain ⟨lead, tail, bytes, next⟩ := nextChar_utf8 c (utf8 s)
    have encoded : utf8 (c :: s) = lead :: (tail ++ utf8 s) := by
      rw [utf8, List.flatMap_cons, bytes, ← utf8, List.cons_append]
    rw [encoded, fromUtf8Lossy, decodeAfter, next]
    exact congrArg (c :: ·) ((decodeAfter_length tail _).trans ih)

end Rv64Js.P9
