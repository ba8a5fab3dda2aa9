import Mathlib.Data.List.Sort

set_option autoImplicit false

/-! # Positions in a stably sorted list

Insertion sort keeps elements with equal keys in the order they had. The position of an element in the
sorted list is therefore known before anything is sorted: it is the number of elements that come before
it, by key, and among equal keys by place (`getElem?_sorted`). -/

namespace TrustGate.StableSort

variable {α β : Type} [LinearOrder β] (key : α → β)

def sorted (l : List α) : List α := l.insertionSort fun a b => key a ≤ key b

/-- How many elements come before `a`, in a list with `pre` in front of it and `post` behind it. -/
def rank (pre : List α) (a : α) (post : List α) : Nat :=
  pre.countP (fun b => key b ≤ key a) + post.countP fun b => key b < key a

theorem pairwise_sorted (l : List α) : (sorted key l).Pairwise fun a b => key a ≤ key b := by
  have : IsTrans α fun a b => key a ≤ key b := ⟨fun _ _ _ => le_trans⟩
  have : Std.Total fun a b => key a ≤ key b := ⟨fun a b => le_total (key a) (key b)⟩
  exact List.pairwise_insertionSort (fun a b => key a ≤ key b) l

/-- In a sorted list, the elements below `x` are those at the positions below their number. -/
theorem lt_countP_iff {l : List α} (hl : l.Pairwise fun a b => key a ≤ key b) {n : Nat} {a : α}
    (x : β) (ha : l[n]? = some a) : n < l.countP (fun b => key b < x) ↔ key a < x := by
  induction l generalizing n with
  | nil => cases ha
  | cons c l ih =>
      obtain ⟨hc, hl⟩ := List.pairwise_cons.mp hl
      by_cases hx : key c < x
      · rw [List.countP_cons_of_pos (by simpa using hx)]
        cases n with
        | zero =>
            cases ha
            exact iff_of_true (Nat.succ_pos _) hx
        | succ n =>
            rw [Nat.succ_lt_succ_iff]
            exact ih hl ha
      -- sorted, so once `c` is not below `x`, nothing after it is
      · have hge : ∀ b ∈ c :: l, ¬ key b < x := by
          intro b hb
          rcases List.mem_cons.mp hb with rfl | hb
          · exact hx
          · exact fun hlt => hx (lt_of_le_of_lt (hc b hb) hlt)
        have hzero : (c :: l).countP (fun b => key b < x) = 0 :=
          List.countP_eq_zero.mpr fun b hb => by simpa using hge b hb
        rw [hzero]
        exact iff_of_false (Nat.not_lt_zero n) (hge a (List.mem_of_getElem? ha))

/-- Where the elements are after an insertion. -/
theorem getElem?_orderedInsert (b : α) {l : List α} (hl : l.Pairwise fun a b => key a ≤ key b)
    (n : Nat) : (l.orderedInsert (fun a b => key a ≤ key b) b)[n]? =
      if n < l.countP (fun a => key a < key b) then l[n]?
      else if n = l.countP (fun a => key a < key b) then some b else l[n - 1]? := by
  induction l generalizing n with
  | nil => cases n <;> simp
  | cons c l ih =>
      obtain ⟨hc, hl⟩ := List.pairwise_cons.mp hl
      rw [List.orderedInsert_cons]
      by_cases hbc : key b ≤ key c
      -- `b` goes to the front: nothing is below it
      · have hzero : (c :: l).countP (fun a => key a < key b) = 0 := by
          refine List.countP_eq_zero.mpr fun a ha => ?_
          have hca : key c ≤ key a := by
            rcases List.mem_cons.mp ha with rfl | ha
            · exact le_refl _
            · exact hc a ha
          simpa using hbc.trans hca
        rw [if_pos hbc, hzero]
        cases n <;> simp
      · rw [if_neg hbc, List.countP_cons_of_pos (by simpa using hbc)]
        cases n with
        | zero => simp
        | succ n =>
            rw [List.getElem?_cons_succ, ih hl]
            simp only [Nat.succ_lt_succ_iff, Nat.succ_inj, List.getElem?_cons_succ,
              Nat.add_sub_cancel]
            split_ifs with hlt heq
            · rfl
            · rfl
            · obtain ⟨k, rfl⟩ : ∃ k, n = k + 1 := ⟨n - 1, by omega⟩
              rfl

/-- **The position of an element** in the sorted list is its rank. -/
theorem getElem?_sorted (l : List α) (n : Nat) (a : α) :
    (sorted key l)[n]? = some a ↔ ∃ pre post, l = pre ++ a :: post ∧ rank key pre a post = n := by
  induction l generalizing n with
  | nil => simp [sorted]
  | cons b l ih =>
      have hcount : (sorted key l).countP (fun a => key a < key b) =
          l.countP fun a => key a < key b :=
        (List.perm_insertionSort _ l).countP_eq _
      have hrank : ∀ pre post, rank key (b :: pre) a post =
          rank key pre a post + if key b ≤ key a then 1 else 0 := by
        intro pre post
        unfold rank
        rw [List.countP_cons]
        simp only [decide_eq_true_eq]
        omega
      have hinsert : (sorted key (b :: l))[n]? = _ :=
        getElem?_orderedInsert key b (pairwise_sorted key l) n
      rw [hinsert, hcount]
      -- an element keeps its position exactly when it is below the inserted one
      have hbelow : ∀ k, (sorted key l)[k]? = some a →
          (k < l.countP (fun a => key a < key b) ↔ key a < key b) := fun k hk => by
        rw [← hcount]
        exact lt_countP_iff key (pairwise_sorted key l) (key b) hk
      constructor
      · intro h
        split_ifs at h with hlt heq
        · obtain ⟨pre, post, rfl, hn⟩ := (ih n).mp h
          refine ⟨b :: pre, post, rfl, ?_⟩
          rw [hrank, if_neg (not_le.mpr ((hbelow n h).mp hlt)), hn]
          rfl
        · cases h
          exact ⟨[], l, rfl, by simp [rank, heq]⟩
        · obtain ⟨pre, post, rfl, hn⟩ := (ih (n - 1)).mp h
          refine ⟨b :: pre, post, rfl, ?_⟩
          have hge : key b ≤ key a := not_lt.mp fun hlt' => by
            have := (hbelow (n - 1) h).mpr hlt'
            omega
          rw [hrank, if_pos hge, hn]
          omega
      · rintro ⟨pre, post, hl, rfl⟩
        cases pre with
        | nil =>
            cases hl
            simp [rank]
        | cons b' pre =>
            cases hl
            have hk := (ih (rank key pre a post)).mpr ⟨pre, post, rfl, rfl⟩
            have hlt := hbelow _ hk
            rw [hrank]
            by_cases hba : key b ≤ key a
            · have hnot := mt hlt.mp (not_lt.mpr hba)
              rw [if_pos hba, if_neg (by omega), if_neg (by omega), Nat.add_sub_cancel]
              exact hk
            · have hyes := hlt.mpr (not_le.mp hba)
              rw [if_neg hba, Nat.add_zero, if_pos hyes]
              exact hk

/-- The first elements of the sorted list are those of small rank. -/
theorem mem_take_sorted {l : List α} {limit : Nat} {a : α} :
    a ∈ (sorted key l).take limit ↔ ∃ pre post, l = pre ++ a :: post ∧ rank key pre a post < limit := by
  rw [List.mem_iff_getElem?]
  constructor
  · rintro ⟨n, hn⟩
    rw [List.getElem?_take] at hn
    split_ifs at hn with hlt
    obtain ⟨pre, post, hl, hrank⟩ := (getElem?_sorted key l n a).mp hn
    exact ⟨pre, post, hl, hrank ▸ hlt⟩
  · rintro ⟨pre, post, hl, hlt⟩
    refine ⟨rank key pre a post, ?_⟩
    rw [List.getElem?_take, if_pos hlt]
    exact (getElem?_sorted key l _ a).mpr ⟨pre, post, hl, rfl⟩

/-! ## Which of two elements comes first -/

/-- Of two elements of a list, one comes before the other. -/
theorem pair_or_pair {l : List α} {a b : α} (ha : a ∈ l) (hb : b ∈ l) (hab : a ≠ b) :
    [a, b].Sublist l ∨ [b, a].Sublist l := by
  induction l with
  | nil => cases ha
  | cons c l ih =>
      rcases List.mem_cons.mp ha with rfl | hmem
      · have hb := (List.mem_cons.mp hb).resolve_left hab.symm
        exact .inl (List.cons_sublist_cons.mpr (List.singleton_sublist.mpr hb))
      rcases List.mem_cons.mp hb with rfl | hb
      · exact .inr (List.cons_sublist_cons.mpr (List.singleton_sublist.mpr hmem))
      · exact (ih hmem hb).imp (fun h => h.cons c) fun h => h.cons c

/-- And not the other way round as well. -/
theorem not_pair_of_pair {l : List α} (hl : l.Nodup) {a b : α} (h : [a, b].Sublist l) :
    ¬ [b, a].Sublist l := by
  intro h'
  have hab : a ≠ b := List.pairwise_iff_forall_sublist.mp hl h
  induction l with
  | nil => cases h
  | cons c l ih =>
      obtain ⟨hc, hl⟩ := List.nodup_cons.mp hl
      cases h with
      | cons _ h =>
          cases h' with
          | cons _ h' => exact ih hl h h'
          | cons_cons _ h' => exact hc (h.subset (by simp))
      | cons_cons _ h =>
          cases h' with
          | cons _ h' => exact hc (h'.subset (by simp))
          | cons_cons _ h' => exact hab rfl

/-- **A list without repetition** is known by its elements and by which of two comes first. -/
theorem eq_of_pairs {l m : List α} (hl : l.Nodup) (hm : m.Nodup) (hmem : ∀ a, a ∈ l ↔ a ∈ m)
    (hpairs : ∀ a b, [a, b].Sublist l → [a, b].Sublist m) : l = m := by
  have hl' : l.Pairwise fun a b => [a, b].Sublist m :=
    List.pairwise_iff_forall_sublist.mpr fun h => hpairs _ _ h
  have hm' : m.Pairwise fun a b => [a, b].Sublist m :=
    List.pairwise_iff_forall_sublist.mpr fun h => h
  refine ((List.perm_ext_iff_of_nodup hl hm).mpr hmem).eq_of_pairwise (fun a b _ _ hab hba => ?_)
    hl' hm'
  exact absurd hba (not_pair_of_pair hm hab)

theorem mem_sorted {l : List α} {a : α} : a ∈ sorted key l ↔ a ∈ l :=
  (List.perm_insertionSort _ l).mem_iff

theorem nodup_sorted {l : List α} : (sorted key l).Nodup ↔ l.Nodup :=
  (List.perm_insertionSort _ l).nodup_iff

/-- Where different elements have different keys, the order before sorting does not matter. -/
theorem sorted_perm (hkey : Function.Injective key) {l m : List α} (h : l.Perm m) :
    sorted key l = sorted key m :=
  List.Perm.eq_of_pairwise (fun _ _ _ _ hab hba => hkey (le_antisymm hab hba))
    (pairwise_sorted key l) (pairwise_sorted key m)
    (((List.perm_insertionSort _ l).trans h).trans (List.perm_insertionSort _ m).symm)

/-- **Which of two comes first** in the sorted list: the one with the smaller key, and with equal keys
the one that came first. -/
theorem pair_sorted {l : List α} (hl : l.Nodup) {a b : α} :
    [a, b].Sublist (sorted key l) ↔
      (a ∈ l ∧ b ∈ l ∧ key a < key b) ∨ (key a = key b ∧ [a, b].Sublist l) := by
  have hstable {a b : α} (hkey : key a ≤ key b) (h : [a, b].Sublist l) :
      [a, b].Sublist (sorted key l) := List.pair_sublist_insertionSort hkey h
  have hsorted := (nodup_sorted key).mpr hl
  constructor
  · intro h
    have ha : a ∈ l := (mem_sorted key).mp (h.subset (by simp))
    have hb : b ∈ l := (mem_sorted key).mp (h.subset (by simp))
    have hkey := List.pairwise_iff_forall_sublist.mp (pairwise_sorted key l) h
    rcases hkey.lt_or_eq with hlt | heq
    · exact .inl ⟨ha, hb, hlt⟩
    · have hab : a ≠ b := List.pairwise_iff_forall_sublist.mp hsorted h
      refine .inr ⟨heq, (pair_or_pair ha hb hab).resolve_right fun h' => ?_⟩
      exact not_pair_of_pair hsorted h (hstable heq.ge h')
  · rintro (⟨ha, hb, hlt⟩ | ⟨heq, h⟩)
    · have hab : a ≠ b := fun h => hlt.ne (congrArg key h)
      rcases pair_or_pair ((mem_sorted key).mpr ha) ((mem_sorted key).mpr hb) hab with h | h
      · exact h
      · exact absurd (List.pairwise_iff_forall_sublist.mp (pairwise_sorted key l) h)
          (not_le.mpr hlt)
    · exact hstable heq.le h

end TrustGate.StableSort
