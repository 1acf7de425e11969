import Mathlib.Data.List.Infix
import Mathlib.Data.List.Range

/-!
# Where the elements of a buffer come from

A buffer that reads a stream and may lose part of it holds elements of the stream, but not always
adjacent ones. `Located stream marks buf` notes the position of each element of the buffer. The
notes follow the operations of a buffer: elements are dropped from the front (`Located.drop`) or
taken from the stream as it grows (`Located.push`). A part of the buffer is a part of the stream
when its positions are consecutive (`Located.isInfix`).
-/

namespace Framing

variable {α : Type*}

/-- The elements of `buf` stand at the positions `marks` of `stream`. -/
def Located (stream : List α) (marks : List Nat) (buf : List α) : Prop :=
  marks.map (fun k => stream[k]?) = buf.map some

variable {stream buf : List α} {marks : List Nat}

theorem Located.nil : Located stream [] [] := rfl

theorem Located.length_eq (h : Located stream marks buf) : marks.length = buf.length := by
  have hlen := congrArg List.length h
  simpa using hlen

theorem Located.drop (h : Located stream marks buf) (n : Nat) :
    Located stream (marks.drop n) (buf.drop n) := by
  unfold Located at h ⊢
  rw [List.map_drop, h, List.map_drop]

theorem Located.take (h : Located stream marks buf) (n : Nat) :
    Located stream (marks.take n) (buf.take n) := by
  unfold Located at h ⊢
  rw [List.map_take, h, List.map_take]

theorem Located.append {marks' : List Nat} {buf' : List α} (h : Located stream marks buf)
    (h' : Located stream marks' buf') : Located stream (marks ++ marks') (buf ++ buf') := by
  unfold Located at h h' ⊢
  rw [List.map_append, h, h', List.map_append]

/-- The positions stay when the stream grows. -/
theorem Located.extend (h : Located stream marks buf) (more : List α) :
    Located (stream ++ more) marks buf := by
  unfold Located at h ⊢
  rw [← h]
  apply List.map_congr_left
  intro k hk
  -- a noted position holds an element
  have hsome : ∃ a, stream[k]? = some a := by
    have hmem : stream[k]? ∈ buf.map some := by
      rw [← h]
      exact List.mem_map_of_mem hk
    obtain ⟨a, -, ha⟩ := List.mem_map.mp hmem
    exact ⟨a, ha.symm⟩
  obtain ⟨a, ha⟩ := hsome
  obtain ⟨hlt, -⟩ := List.getElem?_eq_some_iff.mp ha
  exact List.getElem?_append_left hlt

/-- The end of a stream stands at its last positions. -/
theorem located_suffix (stream more : List α) :
    Located (stream ++ more) (List.range' stream.length more.length) more := by
  unfold Located
  refine List.ext_getElem? ?_
  intro i
  rw [List.getElem?_map, List.getElem?_map]
  by_cases hi : i < more.length
  · rw [List.getElem?_range' hi, List.getElem?_eq_getElem hi]
    simp [hi]
  · rw [List.getElem?_eq_none (by simpa using hi), List.getElem?_eq_none (by simpa using hi)]
    rfl

/-- The buffer takes the first `n` elements of what the stream has got, and loses the others. -/
theorem Located.push (h : Located stream marks buf) {more : List α} {n : Nat}
    (hn : n ≤ more.length) :
    Located (stream ++ more) (marks ++ List.range' stream.length n) (buf ++ more.take n) := by
  have hnew : Located (stream ++ more.take n) (List.range' stream.length n) (more.take n) := by
    have hsuffix := located_suffix stream (more.take n)
    rwa [List.length_take, Nat.min_eq_left hn] at hsuffix
  have hnew' := hnew.extend (more.drop n)
  rw [List.append_assoc, List.take_append_drop] at hnew'
  exact (h.extend more).append hnew'

/-- Elements at consecutive positions are adjacent in the stream. -/
theorem Located.isInfix {start n : Nat} (h : Located stream (List.range' start n) buf) :
    buf <:+: stream := by
  have hlen : buf.length = n := by
    rw [← h.length_eq, List.length_range']
  have heq : buf = (stream.drop start).take n := by
    refine List.ext_getElem? ?_
    intro i
    have hi := congrArg (fun l => l[i]?) h
    rw [List.getElem?_map, List.getElem?_map] at hi
    by_cases hin : i < n
    · rw [List.getElem?_range' hin, List.getElem?_eq_getElem (by omega)] at hi
      rw [List.getElem?_take_of_lt hin, List.getElem?_drop, List.getElem?_eq_getElem (by omega)]
      simpa using hi.symm
    · rw [List.getElem?_eq_none (by omega), List.getElem?_take_eq_none (by omega)]
  rw [heq]
  exact (List.take_prefix _ _).isInfix.trans (List.drop_suffix _ _).isInfix

end Framing
