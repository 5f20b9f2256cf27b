import Miscellaneous.CStrings
import Mathlib.Data.List.TakeWhile
import Mathlib.Tactic

/-!
# Streams of C strings

On a stream the strings stand one after the other, each with its NUL, and a
read takes any bytes that come next.  What stands before the first NUL of such a
window is a piece of one string, and a window longer than every string has a
NUL.
-/

namespace CString

def stream (strings : List CString) : List UInt8 :=
  strings.flatMap memory

/-- What is left of a stream of these strings when its start has been read. -/
def Framed (strings : List CString) (bytes : List UInt8) : Prop :=
  ∃ sent, (∀ string ∈ sent, string ∈ strings) ∧ bytes <:+ stream sent

variable {strings : List CString} {bytes : List UInt8}

theorem Framed.nil : Framed strings [] :=
  ⟨[], by simp, List.suffix_rfl⟩

theorem Framed.drop (hbytes : Framed strings bytes) (count : ℕ) :
    Framed strings (bytes.drop count) := by
  obtain ⟨sent, hsent, hsuffix⟩ := hbytes
  exact ⟨sent, hsent, (List.drop_suffix count bytes).trans hsuffix⟩

theorem Framed.append (hbytes : Framed strings bytes) {string : CString}
    (hstring : string ∈ strings) : Framed strings (bytes ++ string.memory) := by
  obtain ⟨sent, hsent, before, hstream⟩ := hbytes
  refine ⟨sent ++ [string], ?_, before, ?_⟩
  · simpa [or_imp, forall_and] using ⟨hsent, hstring⟩
  · rw [← List.append_assoc, hstream]
    simp [stream]

/-- The first string of what is left may have lost its start. -/
theorem Framed.exists_first (hbytes : Framed strings bytes)
    (hne : bytes ≠ []) :
    ∃ string ∈ strings, ∃ first, first <:+ string.bytes ∧
      ∃ behind, bytes = first ++ 0 :: behind := by
  obtain ⟨sent, hsent, before, hstream⟩ := hbytes
  induction sent generalizing before with
  | nil =>
      rw [stream, List.flatMap_nil, List.append_eq_nil_iff] at hstream
      exact absurd hstream.2 hne
  | cons string sent ih =>
      rw [List.forall_mem_cons] at hsent
      rw [stream, List.flatMap_cons, List.append_eq_append_iff] at hstream
      rcases hstream with ⟨rest, hmemory, hbytes⟩ | ⟨rest, -, hrest⟩
      · rcases List.suffix_concat_iff.mp ⟨before, hmemory.symm⟩ with
          rfl | ⟨first, rfl, hfirst⟩
        · exact ih hsent.2 [] hbytes
        · refine ⟨string, hsent.1, first, hfirst, stream sent, ?_⟩
          rw [hbytes, List.append_assoc]
          rfl
      · exact ih hsent.2 rest hrest.symm

theorem text_take_append_nul {first : List UInt8}
    (hfirst : (0 : UInt8) ∉ first) (behind : List UInt8) (count : ℕ) :
    text ((first ++ 0 :: behind).take count) = first.take count := by
  by_cases hcount : count ≤ first.length
  · rw [List.take_append_of_le_length hcount, text,
      List.takeWhile_eq_self_iff]
    intro byte hbyte
    exact decide_eq_true
      (ne_of_mem_of_not_mem (List.mem_of_mem_take hbyte) hfirst)
  · obtain ⟨more, rfl⟩ : ∃ more, count = first.length + (more + 1) :=
      ⟨count - first.length - 1, by omega⟩
    rw [List.take_length_add_append, List.take_succ_cons,
      text_append_nul hfirst, List.take_of_length_le (by omega)]

/-- The text of a window is a piece of one of the strings. -/
theorem Framed.text_take (hbytes : Framed strings bytes) (hne : bytes ≠ [])
    (count : ℕ) :
    ∃ string ∈ strings, text (bytes.take count) <:+: string.bytes := by
  obtain ⟨string, hstring, first, hfirst, behind, rfl⟩ :=
    hbytes.exists_first hne
  have hnul : (0 : UInt8) ∉ first :=
    fun hmem => string.nulFree (hfirst.subset hmem)
  refine ⟨string, hstring, ?_⟩
  rw [text_take_append_nul hnul]
  exact (List.take_prefix count first).isInfix.trans hfirst.isInfix

/-- A window without a NUL is shorter than the string it is a piece of. -/
theorem Framed.nul_mem_take (hbytes : Framed strings bytes) {count : ℕ}
    (hpositive : 0 < count) (hcount : count ≤ bytes.length)
    (hlong : ∀ string ∈ strings, string.bytes.length < count) :
    (0 : UInt8) ∈ bytes.take count := by
  have hne : bytes ≠ [] := List.length_pos_iff.mp (hpositive.trans_le hcount)
  obtain ⟨string, hstring, first, hfirst, behind, rfl⟩ :=
    hbytes.exists_first hne
  have hshort : first.length < count :=
    hfirst.length_le.trans_lt (hlong string hstring)
  obtain ⟨more, rfl⟩ : ∃ more, count = first.length + (more + 1) :=
    ⟨count - first.length - 1, by omega⟩
  rw [List.take_length_add_append, List.take_succ_cons]
  simp

end CString
