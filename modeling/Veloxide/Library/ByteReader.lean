import Veloxide.Library.Bytes
import Veloxide.Library.Stateful

open ByteCodec Stateful List

/-- A source of bytes: `read` asks for some, but not for more than it has room for. -/
class ByteReader (σ : Type) where
  read : σ → Nat → Except String Bytes × σ

/-- A reader that hands out fixed bytes in pieces, which are empty at their end only. -/
class PiecewiseReader (σ : Type) extends ByteReader σ where
  remaining : σ → Bytes
  read_piece : ∀ (reader : σ) (room : Nat), 0 < room → ∃ piece after, read reader room = (.ok piece, after) ∧
    remaining reader = piece ++ remaining after ∧ piece.length ≤ room ∧ (piece = [] → remaining reader = [])

namespace ByteReader

variable {σ ε : Type}

section

variable [ByteReader σ] (io : String → ε) (short : Nat → ε) (room : Nat → Nat)

/-- Reads until there are `want` bytes; `room` gives the size of the buffer for the bytes that are missing. -/
def fill (want : Nat) (got : Bytes) : Stateful σ ε Bytes := if got.length < want then do
    let piece ← mapError io ⟨fun reader => ByteReader.read reader (room (want - got.length))⟩
    if piece = [] then fail (short got.length)
    else fill want (got ++ piece)
  else pure got
termination_by want - got.length
decreasing_by
  rename_i missing nonempty
  have some := length_pos_of_ne_nil nonempty
  rw [length_append]
  omega

end

section

variable [PiecewiseReader σ] {io : String → ε} {short : Nat → ε} {room : Nat → Nat}
  (fits : ∀ missing, 0 < missing → 0 < room missing ∧ room missing ≤ missing)

open PiecewiseReader

variable {want : Nat} {got : Bytes}

omit [PiecewiseReader σ] in
theorem fill_enough [ByteReader σ] (he : got.length = want) (reader : σ) :
    (fill io short room want got).run reader = (.ok got, reader) := by
  rw [fill, if_neg (Nat.not_lt.mpr (Nat.le_of_eq he.symm))]
  rfl

include fits

theorem fill_piece (missing : got.length < want) (reader : σ) :
    (remaining reader = [] ∧ ∃ after, (fill io short room want got).run reader = (.error (short got.length), after)) ∨
      ∃ piece after, piece ≠ [] ∧ piece.length ≤ want - got.length ∧ remaining reader = piece ++ remaining after ∧
        (fill io short room want got).run reader = (fill io short room want (got ++ piece)).run after := by
  obtain ⟨hp, hs⟩ := fits (want - got.length) (Nat.sub_pos_of_lt missing)
  obtain ⟨piece, after, ran, split, hl, he⟩ := read_piece reader (room (want - got.length)) hp
  rw [fill, if_pos missing, bind_ok (mapError_ok ran)]
  by_cases hn : piece = []
  · exact .inl ⟨he hn, after, by rw [if_pos hn]; rfl⟩
  · refine .inr ⟨piece, after, hn, Nat.le_trans hl hs, split, ?_⟩
    rw [if_neg hn]

theorem fill_complete {bytes rest : Bytes} {reader : σ} (hh : remaining reader = bytes ++ rest)
    (exact : got.length + bytes.length = want) :
    ∃ after, (fill io short room want got).run reader = (.ok (got ++ bytes), after) ∧ remaining after = rest := by
  induction count : bytes.length using Nat.strongRecOn generalizing got bytes reader with
  | ind count ih =>
    by_cases missing : got.length < want
    · rcases @fill_piece _ _ _ io short _ fits _ _ missing reader with ⟨hm, _⟩ | ⟨piece, after, some, ha, split, ran⟩
      · rw [hm, nil_eq, append_eq_nil_iff] at hh
        rw [hh.1] at exact
        exact absurd exact (Nat.ne_of_lt missing)
      · have hi : piece <+: bytes := by
          refine prefix_of_prefix_length_le ⟨remaining after, split.symm⟩ ⟨rest, hh.symm⟩ ?_
          omega
        obtain ⟨more, rfl⟩ := hi
        rw [hh, append_assoc] at split
        have hl := append_cancel_left split
        rw [length_append] at exact count
        have hs := length_pos_of_ne_nil some
        have he : (got ++ piece).length + more.length = want := by
          rw [length_append]
          omega
        obtain ⟨last, hf, left⟩ := ih more.length (by omega) hl.symm he rfl
        exact ⟨last, by rw [ran, hf, append_assoc], left⟩
    · have none : bytes = [] := length_eq_zero_iff.mp (by omega)
      subst none
      rw [append_nil]
      exact ⟨reader, fill_enough exact reader, hh⟩

theorem fill_short {bytes : Bytes} {reader : σ} (hh : remaining reader = bytes) (less : got.length + bytes.length < want) :
    ∃ after, (fill io short room want got).run reader = (.error (short (got.length + bytes.length)), after) := by
  induction count : bytes.length using Nat.strongRecOn generalizing got bytes reader with
  | ind size ih =>
    have missing : got.length < want := by omega
    rcases @fill_piece _ _ _ io short _ fits _ _ missing reader with ⟨he, hs⟩ | ⟨piece, after, some, _, split, ran⟩
    · rw [← count, ← hh, he]
      exact hs
    · rw [hh] at split
      have ha := congrArg List.length split
      rw [length_append] at ha
      have hb := length_pos_of_ne_nil some
      have hl : (got ++ piece).length + (remaining after).length < want := by
        rw [length_append]
        omega
      obtain ⟨last, hf⟩ := ih (remaining after).length (by omega) rfl hl rfl
      have ht : (got ++ piece).length + (remaining after).length = got.length + size := by
        rw [length_append]
        omega
      exact ⟨last, by rw [ran, hf, ht]⟩

end

end ByteReader
