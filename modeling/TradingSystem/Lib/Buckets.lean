import Mathlib.Data.List.Nodup
import Mathlib.Data.List.Flatten

/-!
# Tables of queues

A table is an array of lists, read with `[]` past the end. `contents` lists what the table holds, bucket
after bucket. `contents_perm` splits it at one bucket, so that a change of that bucket is a change of the
contents up to permutation.
-/

namespace Lib

abbrev Buckets (α : Type) := Array (List α)

namespace Buckets

variable {α : Type}

def bucket (t : Buckets α) (i : Nat) : List α := t[i]?.getD []

def setBucket (t : Buckets α) (i : Nat) (q : List α) : Buckets α := t.setIfInBounds i q

def contents (t : Buckets α) : List α := t.toList.flatten

variable (t : Buckets α)

@[simp] theorem size_setBucket (i : Nat) (q : List α) : (t.setBucket i q).size = t.size :=
  Array.size_setIfInBounds

theorem bucket_setBucket {i : Nat} (hi : i < t.size) (q : List α) (j : Nat) :
    (t.setBucket i q).bucket j = if j = i then q else t.bucket j := by
  unfold bucket setBucket
  rw [Array.getElem?_setIfInBounds]
  by_cases h : j = i
  · subst h
    simp [hi]
  · rw [if_neg (Ne.symm h), if_neg h]

@[simp] theorem bucket_replicate (n i : Nat) : bucket (Array.replicate n ([] : List α)) i = [] := by
  unfold bucket
  rw [Array.getElem?_replicate]
  split_ifs <;> rfl

theorem lt_size_of_mem {t : Buckets α} {i : Nat} {x : α} (h : x ∈ t.bucket i) : i < t.size := by
  by_contra hi
  have hnone : t[i]? = none := Array.getElem?_eq_none (by omega)
  simp [bucket, hnone] at h

theorem getElem?_eq_bucket {i : Nat} (hi : i < t.size) : t[i]? = some (t.bucket i) := by
  simp [bucket, hi]

theorem getElem_toList {i : Nat} (hi : i < t.toList.length) : t.toList[i] = t.bucket i := by
  have hi' : i < t.size := hi
  simp [bucket, hi']

/-- A table is its size and its buckets. -/
theorem ext_of_bucket {t t' : Buckets α} (hsize : t.size = t'.size) (h : ∀ i, t.bucket i = t'.bucket i) :
    t = t' := by
  apply Array.ext hsize
  intro i hi hi'
  have hbucket := h i
  simpa [bucket, hi, hi'] using hbucket

theorem mem_contents {x : α} : x ∈ t.contents ↔ ∃ i, x ∈ t.bucket i := by
  unfold contents
  rw [List.mem_flatten]
  constructor
  · rintro ⟨q, hq, hx⟩
    obtain ⟨i, hi, rfl⟩ := List.mem_iff_getElem.mp hq
    exact ⟨i, by rwa [← t.getElem_toList hi]⟩
  · rintro ⟨i, hx⟩
    have hi := lt_size_of_mem hx
    exact ⟨t.bucket i, by rw [Array.mem_toList_iff]; exact Array.mem_of_getElem? (t.getElem?_eq_bucket hi), hx⟩

/-- The contents outside bucket `i`. -/
def others (t : Buckets α) (i : Nat) : List α := (t.toList.take i).flatten ++ (t.toList.drop (i + 1)).flatten

@[simp] theorem others_setBucket (i : Nat) (q : List α) : (t.setBucket i q).others i = t.others i := by
  unfold others setBucket
  rw [Array.toList_setIfInBounds, List.take_set_of_le (Nat.le_refl i), List.drop_set_of_lt (Nat.lt_succ_self i)]

theorem contents_eq {i : Nat} (hi : i < t.size) :
    t.contents = (t.toList.take i).flatten ++ t.bucket i ++ (t.toList.drop (i + 1)).flatten := by
  have hlen : i < t.toList.length := hi
  calc t.contents = (t.toList.take i ++ t.toList.drop i).flatten := by rw [List.take_append_drop]; rfl
    _ = (t.toList.take i).flatten ++ t.bucket i ++ (t.toList.drop (i + 1)).flatten := by
      rw [List.drop_eq_getElem_cons hlen, t.getElem_toList hlen]
      simp

theorem contents_perm {i : Nat} (hi : i < t.size) : t.contents.Perm (t.bucket i ++ t.others i) := by
  rw [t.contents_eq hi, others, ← List.append_assoc]
  exact List.perm_append_comm.append_right _

end Buckets

end Lib
