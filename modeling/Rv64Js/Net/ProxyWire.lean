import Rv64Js.Lib.Reader
import Rv64Js.P9.Message

/-! # The wire form of proxy requests

A request crosses to the host as length-prefixed fields, and the head of the response comes back
the same way. What was written is read back and no part of it may be missing; the count of headers
is the one number a reader trusts before it has seen what is counted. -/

set_option autoImplicit false

namespace Rv64Js.Proxy

open Rv64Js.P9 Fallible

abbrev Header := Str × Str

structure Request where
  method : Str
  url : Str
  headers : List Header
  body : List Byte
deriving DecidableEq

/-! ## Writing -/

def putBytes (b : List Byte) : List Byte := le32 (BitVec.ofNat 32 b.length) ++ b

def putHeaders (headers : List Header) : List Byte :=
  le32 (BitVec.ofNat 32 headers.length) ++ headers.flatMap fun h =>
    putBytes (utf8 h.1) ++ putBytes (utf8 h.2)

def Request.encode (r : Request) : List Byte :=
  putBytes (utf8 r.method) ++ (putBytes (utf8 r.url) ++ (putHeaders r.headers ++ putBytes r.body))

def encodeHead (status : BitVec 16) (headers : List Header) : List Byte :=
  le32 (status.setWidth 32) ++ putHeaders headers

/-! ## Reading -/

inductive Stop where
  /-- `?` on a field that is not all there -/
  | missing
  | capacityOverflow
deriving DecidableEq

/-- The cursor as what is left behind its position: a slice is shorter than `usize::MAX`, so
`checked_add` fails only where `get` would. -/
abbrev Cursor := EStateM Stop (List Byte)

def Cursor.of {α : Type} (taken : List Byte → Option (α × List Byte)) : Cursor α := fun b =>
  match taken b with
  | some (a, rest) => .ok a rest
  | none => .error .missing b

def Cursor.u32 : Cursor (BitVec 32) := .of (takeNumber 32 4)

def Cursor.bytes : Cursor (List Byte) := do
  let n ← u32
  .of (takeBytes n.toNat)

def Cursor.string : Cursor Str := do
  let b ← bytes
  pure (fromUtf8Lossy b)

def Cursor.pairs : Nat → Cursor (List Header)
  | 0 => pure []
  | n + 1 => do
    let name ← string
    let value ← string
    let rest ← pairs n
    pure ((name, value) :: rest)

/-- Whether a `Vec` of `n` headers stays within `isize::MAX` bytes; a header is two strings of
three words each. -/
def Reservable (w n : Nat) : Prop := n * (6 * (w / 8)) ≤ 2 ^ (w - 1) - 1

instance (w n : Nat) : Decidable (Reservable w n) := inferInstanceAs (Decidable (_ ≤ _))

def withCapacity (w n : Nat) : Cursor Unit :=
  if Reservable w n then pure () else throw .capacityOverflow

def Cursor.headers (w : Nat) : Cursor (List Header) := do
  let n ← u32
  withCapacity w n.toNat
  pairs n.toNat

inductive Decoded (α : Type) where
  | value (a : α)
  | rejected
  | panicked
deriving DecidableEq

def Cursor.decode {α : Type} (m : Cursor α) (b : List Byte) : Decoded α :=
  match m b with
  | .ok a _ => .value a
  | .error .missing _ => .rejected
  | .error .capacityOverflow _ => .panicked

def Cursor.request (w : Nat) : Cursor Request := do
  let method ← string
  let url ← string
  let headers ← headers w
  let body ← bytes
  pure ⟨method, url, headers, body⟩

def Cursor.head (w : Nat) : Cursor (BitVec 16 × List Header) := do
  let status ← u32
  let headers ← headers w
  pure (status.setWidth 16, headers)

def Request.decode (w : Nat) (b : List Byte) : Decoded Request := (Cursor.request w).decode b

def decodeHead (w : Nat) (b : List Byte) : Decoded (BitVec 16 × List Header) :=
  (Cursor.head w).decode b

/-! ## What was written is read back -/

namespace Cursor

theorem of_reads {α : Type} {taken : List Byte → Option (α × List Byte)} {written : List Byte}
    {a : α} (whole : ∀ rest, taken (written ++ rest) = some (a, rest))
    (short : ∀ first, first.length < written.length → taken first = none) :
    Reads .missing (of taken) written a := by
  refine ⟨fun rest => by rw [of, whole], fun first before cut => ⟨first, ?_⟩⟩
  have less : first.length < written.length :=
    Nat.lt_of_le_of_ne before.length_le fun all => cut (before.eq_of_length all)
  rw [of, short first less]

theorem u32_reads (v : BitVec 32) : Reads .missing u32 (le32 v) v := by
  refine of_reads (takeNumber_le 4 v) fun first less => ?_
  rw [le32, length_le] at less
  rw [takeNumber, takeBytes, if_neg (Nat.not_le.mpr less)]
  rfl

variable {b : List Byte}

theorem bytes_reads (small : b.length < 2 ^ 32) : Reads .missing bytes (putBytes b) b := by
  refine (u32_reads _).bind ?_
  rw [BitVec.toNat_ofNat, Nat.mod_eq_of_lt small]
  exact of_reads (takeBytes_append b) fun first less => if_neg (Nat.not_le.mpr less)

theorem string_reads {s : Str} (small : (utf8 s).length < 2 ^ 32) :
    Reads .missing string (putBytes (utf8 s)) s := by
  have read := (bytes_reads small).map fromUtf8Lossy
  rwa [fromUtf8Lossy_utf8] at read

end Cursor

/-- The headers of a value the host holds, with fields whose length can be written. -/
structure Held (w : Nat) (headers : List Header) : Prop where
  vec : Reservable w headers.length
  fields : ∀ h ∈ headers, (utf8 h.1).length < 2 ^ 32 ∧ (utf8 h.2).length < 2 ^ 32

variable {w : Nat}

namespace Cursor

theorem pairs_reads {headers : List Header}
    (held : ∀ h ∈ headers, (utf8 h.1).length < 2 ^ 32 ∧ (utf8 h.2).length < 2 ^ 32) :
    Reads .missing (pairs headers.length)
      (headers.flatMap fun h => putBytes (utf8 h.1) ++ putBytes (utf8 h.2)) headers := by
  induction headers with
  | nil => exact .done fun _ => rfl
  | cons h headers ih =>
    obtain ⟨name, value⟩ := held h List.mem_cons_self
    rw [List.flatMap_cons, List.append_assoc]
    exact (string_reads name).bind ((string_reads value).bind
      ((ih fun h mem => held h (List.mem_cons_of_mem _ mem)).map (h :: ·)))

theorem headers_reads {headers : List Header} (held : Held w headers)
    (counted : headers.length < 2 ^ 32) :
    Reads .missing (Cursor.headers w) (putHeaders headers) headers := by
  refine (u32_reads _).bind ?_
  rw [BitVec.toNat_ofNat, Nat.mod_eq_of_lt counted]
  have reserve : Reads .missing (withCapacity w headers.length) [] () :=
    .done fun _ => by rw [withCapacity, if_pos held.vec]; rfl
  exact reserve.bind (pairs_reads held.fields)

theorem pairs_length {n : Nat} {b rest : List Byte} {headers : List Header}
    (run : pairs n b = .ok headers rest) : headers.length = n := by
  induction n generalizing b headers with
  | zero => cases run; rfl
  | succ n ih =>
    obtain ⟨_, _, -, run⟩ := bind_eq_ok run
    obtain ⟨_, _, -, run⟩ := bind_eq_ok run
    obtain ⟨tail, _, read, run⟩ := bind_eq_ok run
    cases run
    rw [List.length_cons, ih read]

theorem headers_length {b rest : List Byte} {headers : List Header}
    (run : Cursor.headers w b = .ok headers rest) : headers.length < 2 ^ 32 := by
  obtain ⟨n, _, -, run⟩ := bind_eq_ok run
  obtain ⟨_, _, -, run⟩ := bind_eq_ok run
  rw [pairs_length run]
  exact n.isLt

/-! ## Which inputs panic -/

variable {α γ : Type} {m : Cursor α} {k : α → Cursor γ} {b t : List Byte}

def Panics (m : Cursor α) (b : List Byte) : Prop := ∃ rest, m b = .error .capacityOverflow rest

theorem panics_bind : Panics (m >>= k) b ↔ Panics m b ∨ ∃ a t, m b = .ok a t ∧ Panics (k a) t := by
  constructor
  · rintro ⟨rest, run⟩
    rcases bind_eq_error run with run | ⟨a, t, first, run⟩
    · exact .inl ⟨rest, run⟩
    · exact .inr ⟨a, t, first, rest, run⟩
  · rintro (⟨rest, run⟩ | ⟨a, t, first, rest, run⟩)
    · exact ⟨rest, bind_error k run⟩
    · exact ⟨rest, (bind_ok k first).trans run⟩

theorem not_panics_pure (a : α) : ¬Panics (pure a) b := nofun

theorem not_panics_of (taken : List Byte → Option (α × List Byte)) : ¬Panics (of taken) b := by
  rintro ⟨rest, run⟩
  unfold of at run
  split at run <;> cases run

theorem not_panics_bytes : ¬Panics bytes b := by
  simp only [bytes, u32, panics_bind, not_panics_of, and_false, exists_false, or_self,
    not_false_eq_true]

theorem not_panics_string : ¬Panics string b := by
  simp only [string, panics_bind, not_panics_bytes, not_panics_pure, and_false, exists_false,
    or_self, not_false_eq_true]

theorem not_panics_pairs (n : Nat) : ¬Panics (pairs n) b := by
  induction n generalizing b with
  | zero => exact not_panics_pure _
  | succ n ih =>
    simp only [pairs, panics_bind, not_panics_string, ih, not_panics_pure, and_false, exists_false,
      or_self, not_false_eq_true]

theorem u32_ok {v : BitVec 32} : u32 b = .ok v t ↔ b = le32 v ++ t := by
  refine ⟨fun run => ?_, fun same => same ▸ (u32_reads v).whole t⟩
  unfold u32 of at run
  split at run
  · rename_i taken
    cases run
    exact takeNumber_eq_some (n := 4) taken
  · cases run

theorem bytes_ok {x : List Byte} : bytes b = .ok x t ↔ x.length < 2 ^ 32 ∧ b = putBytes x ++ t := by
  refine ⟨fun run => ?_, fun ⟨small, same⟩ => same ▸ (bytes_reads small).whole t⟩
  obtain ⟨n, b', count, run⟩ := bind_eq_ok run
  unfold of takeBytes at run
  split at run
  · rename_i taken
    split at taken
    · rename_i long
      cases taken
      cases run
      have length : (b'.take n.toNat).length = n.toNat := List.length_take_of_le long
      rw [putBytes, length, BitVec.ofNat_toNat, BitVec.setWidth_eq, List.append_assoc,
        List.take_append_drop]
      exact ⟨n.isLt, u32_ok.mp count⟩
    · cases taken
  · cases run

theorem string_ok : (∃ s, string b = .ok s t) ↔ ∃ x, x.length < 2 ^ 32 ∧ b = putBytes x ++ t := by
  constructor
  · rintro ⟨s, run⟩
    obtain ⟨x, _, read, run⟩ := bind_eq_ok run
    cases run
    exact ⟨x, bytes_ok.mp read⟩
  · rintro ⟨x, read⟩
    exact ⟨_, bind_ok _ (bytes_ok.mpr read)⟩

theorem panics_headers :
    Panics (.headers w) b ↔ ∃ n t, b = le32 n ++ t ∧ ¬Reservable w n.toNat := by
  have reserve (n : Nat) (t : List Byte) : Panics (withCapacity w n) t ↔ ¬Reservable w n := by
    unfold withCapacity
    split
    · rename_i fits
      exact iff_of_false (not_panics_pure ()) (not_not.mpr fits)
    · rename_i large
      exact iff_of_true ⟨t, rfl⟩ large
  have count : ¬Panics u32 b := not_panics_of _
  simp only [Cursor.headers, panics_bind, count, reserve, not_panics_pairs, u32_ok, and_false,
    exists_false, or_false, false_or]

end Cursor

def RoundTrips {α : Type} (decode : List Byte → Decoded α) (written : List Byte) (a : α) : Prop :=
  decode written = .value a ∧ ∀ first, first <+: written → first ≠ written →
    decode first = .rejected

theorem Cursor.roundTrips {α : Type} {m : Cursor α} {written : List Byte} {a : α}
    (reads : Reads .missing m written a) : RoundTrips m.decode written a := by
  refine ⟨?_, fun first before short => ?_⟩
  · have whole := reads.whole []
    rw [List.append_nil] at whole
    rw [decode, whole]
  · obtain ⟨rest, failed⟩ := reads.cut first before short
    rw [decode, failed]

theorem Cursor.decode_eq_value {α : Type} {m : Cursor α} {b : List Byte} {a : α}
    (read : m.decode b = .value a) : ∃ rest, m b = .ok a rest := by
  unfold decode at read
  split at read
  · rename_i rest run
    cases read
    exact ⟨rest, run⟩
  · cases read
  · cases read

theorem Cursor.decode_panicked {α : Type} {m : Cursor α} {b : List Byte} :
    m.decode b = .panicked ↔ Panics m b := by
  unfold decode Panics
  cases run : m b with
  | ok a rest => simp
  | error stop rest => cases stop <;> simp

/-- The number of headers that an encoded request gives, whatever follows it. -/
def Request.Counts (b : List Byte) (n : BitVec 32) : Prop :=
  ∃ method url rest, method.length < 2 ^ 32 ∧ url.length < 2 ^ 32 ∧
    b = putBytes method ++ (putBytes url ++ (le32 n ++ rest))

def headCounts (b : List Byte) (n : BitVec 32) :
    Prop := ∃ status rest, b = le32 status ++ (le32 n ++ rest)

theorem request_roundTrips (r : Request) (held : Held w r.headers)
    (method : (utf8 r.method).length < 2 ^ 32) (url : (utf8 r.url).length < 2 ^ 32)
    (body : r.body.length < 2 ^ 32) :
    RoundTrips (Request.decode w) r.encode r ↔ r.headers.length < 2 ^ 32 := by
  constructor
  · rintro ⟨read, -⟩
    obtain ⟨rest, run⟩ := Cursor.decode_eq_value read
    obtain ⟨_, _, -, run⟩ := bind_eq_ok run
    obtain ⟨_, _, -, run⟩ := bind_eq_ok run
    obtain ⟨_, _, headers, run⟩ := bind_eq_ok run
    obtain ⟨_, _, -, run⟩ := bind_eq_ok run
    cases run
    exact Cursor.headers_length headers
  · intro counted
    exact Cursor.roundTrips ((Cursor.string_reads method).bind ((Cursor.string_reads url).bind
      ((Cursor.headers_reads held counted).bind ((Cursor.bytes_reads body).map _))))

theorem head_roundTrips (status : BitVec 16) (headers : List Header) (held : Held w headers) :
    RoundTrips (decodeHead w) (encodeHead status headers) (status, headers) ↔
      headers.length < 2 ^ 32 := by
  constructor
  · rintro ⟨read, -⟩
    obtain ⟨rest, run⟩ := Cursor.decode_eq_value read
    obtain ⟨_, _, -, run⟩ := bind_eq_ok run
    obtain ⟨_, _, headers, run⟩ := bind_eq_ok run
    cases run
    exact Cursor.headers_length headers
  · intro counted
    have reads : Reads .missing (Cursor.head w) (encodeHead status headers)
        ((status.setWidth 32).setWidth 16, headers) :=
      (Cursor.u32_reads _).bind ((Cursor.headers_reads held counted).map _)
    rw [BitVec.setWidth_setWidth_of_le _ (by decide), BitVec.setWidth_eq] at reads
    exact Cursor.roundTrips reads

namespace Cursor

theorem panics_request {b : List Byte} :
    Panics (request w) b ↔ ∃ n, Request.Counts b n ∧ ¬Reservable w n.toNat := by
  simp only [request, panics_bind, not_panics_string, panics_headers, not_panics_bytes,
    not_panics_pure, and_false, exists_false, or_false, false_or]
  constructor
  · rintro ⟨_, t, first, _, t', second, n, rest, rfl, large⟩
    obtain ⟨method, short, rfl⟩ := string_ok.mp ⟨_, first⟩
    obtain ⟨url, short', rfl⟩ := string_ok.mp ⟨_, second⟩
    exact ⟨n, ⟨method, url, rest, short, short', rfl⟩, large⟩
  · rintro ⟨n, ⟨method, url, rest, short, short', rfl⟩, large⟩
    obtain ⟨_, first⟩ := string_ok.mpr ⟨method, short, rfl⟩
    obtain ⟨_, second⟩ := string_ok.mpr ⟨url, short', rfl⟩
    exact ⟨_, _, first, _, _, second, n, rest, rfl, large⟩

theorem panics_head {b : List Byte} :
    Panics (head w) b ↔ ∃ n, headCounts b n ∧ ¬Reservable w n.toNat := by
  have status : ¬Panics u32 b := not_panics_of _
  simp only [head, panics_bind, status, u32_ok, panics_headers, not_panics_pure, and_false,
    exists_false, or_false, false_or]
  constructor
  · rintro ⟨v, _, rfl, n, rest, rfl, large⟩
    exact ⟨n, ⟨v, rest, rfl⟩, large⟩
  · rintro ⟨n, ⟨v, rest, rfl⟩, large⟩
    exact ⟨v, _, rfl, n, rest, rfl, large⟩

/-- With 32-bit words the count alone can ask for more than `isize::MAX` bytes. -/
theorem decode_safe {α : Type} {m : Cursor α} {b : List Byte} {counts : BitVec 32 → Prop}
    (word : w = 32 ∨ w = 64) (panics : Panics m b ↔ ∃ n, counts n ∧ ¬Reservable w n.toNat) :
    m.decode b ≠ .panicked ↔ w = 64 ∨ ∀ n, counts n → n.toNat ≤ 89478485 := by
  rw [Ne, decode_panicked, panics]
  push Not
  rcases word with rfl | rfl
  · simp only [Reservable, (by decide : ¬32 = 64), false_or]
    exact forall₂_congr fun n _ => by omega
  · refine iff_of_true (fun n _ => ?_) (.inl rfl)
    have := n.isLt
    unfold Reservable
    omega

end Cursor

end Rv64Js.Proxy
