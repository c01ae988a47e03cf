import Mathlib.Tactic

set_option autoImplicit false

/-! # Reading a sorted list page by page

A reader asks for the entries from a cursor on and gets the first `k` of them. It goes on behind the
last entry of the page, and stops at an empty page, at a last entry that has reached `stop`, and at
a last entry that is not past the cursor. `pages` is what it reads from a list with ascending keys;
`rest` is always what the list holds from the cursor on. The last rule is harmless while a page has
room for two entries (`mem_pages`), but with pages of one entry it also stops at an entry that lies
exactly at the cursor (`exists_not_mem_pages`).
-/

namespace Lib.Paging

variable {α : Type*} (key : α → ℤ)

/-- The entries read in at most `n` pages. -/
def pages (k : ℕ) (stop : ℤ) : ℕ → ℤ → List α → List α
  | 0, _, _ => []
  | n + 1, cursor, rest =>
      match (rest.take k).getLast? with
      | none => []
      | some last =>
          rest.take k ++
            if stop ≤ key last ∨ key last ≤ cursor then []
            else pages k stop n (key last + 1) (rest.drop k)

/-- With pages of one entry: no entry but the last lies exactly at the cursor it is asked from. -/
def NoStall : ℤ → List α → Prop
  | cursor, x :: y :: rest => key x ≠ cursor ∧ NoStall (key x + 1) (y :: rest)
  | _, _ => True

instance decidableNoStall : (cursor : ℤ) → (xs : List α) → Decidable (NoStall key cursor xs)
  | _, [] => isTrue trivial
  | _, [_] => isTrue trivial
  | cursor, x :: y :: rest =>
      have := decidableNoStall (key x + 1) (y :: rest)
      inferInstanceAs (Decidable (key x ≠ cursor ∧ NoStall key (key x + 1) (y :: rest)))

/-- Keys strictly ascend. -/
def Ascending (xs : List α) : Prop := xs.Pairwise fun x y => key x < key y

variable {key} {k n : ℕ} {stop cursor : ℤ} {rest : List α}

theorem pages_prefix (k n : ℕ) (stop cursor : ℤ) (rest : List α) :
    pages key k stop n cursor rest <+: rest := by
  induction n generalizing cursor rest with
  | zero => exact List.nil_prefix
  | succ n ih =>
      unfold pages
      split
      · exact List.nil_prefix
      next last hlast =>
        split_ifs
        · rw [List.append_nil]
          exact List.take_prefix _ _
        · obtain ⟨behind, hbehind⟩ := @ih (key last + 1) (rest.drop k)
          exact ⟨behind, by rw [List.append_assoc, hbehind, List.take_append_drop]⟩

/-- The last entry of a page separates it from what comes behind. -/
theorem key_le_of_mem_take (h : Ascending key rest) {last x : α}
    (hlast : (rest.take k).getLast? = some last) (hx : x ∈ rest.take k) : key x ≤ key last := by
  obtain ⟨front, hfront⟩ := List.getLast?_eq_some_iff.mp hlast
  have htake : Ascending key (rest.take k) := h.sublist (List.take_sublist _ _)
  rw [hfront] at htake hx
  rcases List.mem_append.mp hx with hx | hx
  · exact ((List.pairwise_append.mp htake).2.2 x hx last List.mem_cons_self).le
  · rw [List.mem_singleton.mp hx]

theorem lt_key_of_mem_drop (h : Ascending key rest) {last x : α}
    (hlast : (rest.take k).getLast? = some last) (hx : x ∈ rest.drop k) : key last < key x := by
  have hmem : last ∈ rest.take k := List.mem_of_getLast? hlast
  have hsplit : Ascending key (rest.take k ++ rest.drop k) := by
    rw [List.take_append_drop]
    exact h
  exact (List.pairwise_append.mp hsplit).2.2 last hmem x hx

/-- What a list holds behind the last entry of a page. -/
theorem filter_behind (h : Ascending key rest) {last : α}
    (hlast : (rest.take k).getLast? = some last) :
    rest.filter (fun x => key last + 1 ≤ key x) = rest.drop k := by
  conv_lhs => rw [← List.take_append_drop k rest, List.filter_append]
  have htake : (rest.take k).filter (fun x => key last + 1 ≤ key x) = [] := by
    apply List.filter_eq_nil_iff.mpr
    intro x hx hle
    have := key_le_of_mem_take h hlast hx
    have := of_decide_eq_true hle
    omega
  have hdrop : (rest.drop k).filter (fun x => key last + 1 ≤ key x) = rest.drop k := by
    apply List.filter_eq_self.mpr
    intro x hx
    have := lt_key_of_mem_drop h hlast hx
    exact decide_eq_true (by omega)
  rw [htake, hdrop, List.nil_append]

/-- A page that ends at the cursor holds one entry. -/
theorem take_eq_singleton (h : Ascending key rest) (hcursor : ∀ x ∈ rest, cursor ≤ key x)
    {last : α} (hlast : (rest.take k).getLast? = some last) (hend : key last ≤ cursor) :
    rest.take k = [last] := by
  obtain ⟨front, hfront⟩ := List.getLast?_eq_some_iff.mp hlast
  have htake : Ascending key (front ++ [last]) := by
    rw [← hfront]
    exact h.sublist (List.take_sublist _ _)
  cases front with
  | nil => exact hfront
  | cons x front =>
      have hx : x ∈ rest := List.mem_of_mem_take (by rw [hfront]; exact List.mem_cons_self)
      have hlt : key x < key last :=
        (List.pairwise_append.mp htake).2.2 x List.mem_cons_self last List.mem_cons_self
      have := hcursor x hx
      omega

/-- The first entry is read with the first page. -/
theorem mem_pages_head (k n : ℕ) (cursor : ℤ) (x : α) (rest : List α) :
    x ∈ pages key (k + 1) stop (n + 1) cursor (x :: rest) := by
  unfold pages
  have hpage : x ∈ (x :: rest).take (k + 1) := by
    rw [List.take_succ_cons]
    exact List.mem_cons_self
  split
  next hnone =>
    rw [List.getLast?_eq_none_iff.mp hnone] at hpage
    cases hpage
  next last hlast => exact List.mem_append_left _ hpage

/-- A page that lies below `stop` uses up its share of what there is to read. -/
theorem filter_of_page_below (h : Ascending key rest) {last : α}
    (hlast : (rest.take k).getLast? = some last) (hbelow : key last ≤ stop) :
    rest.filter (fun y => key y ≤ stop) =
      rest.take k ++ (rest.drop k).filter fun y => key y ≤ stop := by
  conv_lhs => rw [← List.take_append_drop k rest, List.filter_append]
  congr 1
  apply List.filter_eq_self.mpr
  intro y hy
  have := key_le_of_mem_take h hlast hy
  exact decide_eq_true (by omega)

/-- A page that others follow up to `stop` ends past the cursor. -/
theorem page_moves (h : Ascending key rest) (hcursor : ∀ x ∈ rest, cursor ≤ key x)
    (hfull : k ≤ rest.length)
    (hpages : 2 ≤ k ∨ NoStall key cursor (rest.filter fun x => key x ≤ stop)) {last x : α}
    (hlast : (rest.take k).getLast? = some last) (hbelow : key last ≤ stop)
    (hx : x ∈ (rest.drop k).filter fun y => key y ≤ stop) : cursor < key last := by
  by_contra hend
  have hone := take_eq_singleton h hcursor hlast (not_lt.mp hend)
  have hk : k = 1 := by
    have := congrArg List.length hone
    rw [List.length_take, Nat.min_eq_left hfull] at this
    exact this
  have hstall := hpages.resolve_left (by omega)
  rw [filter_of_page_below h hlast hbelow, hone] at hstall
  cases htail : (rest.drop k).filter fun y => key y ≤ stop with
  | nil =>
      rw [htail] at hx
      cases hx
  | cons y tail =>
      rw [htail] at hstall
      have := hcursor last (List.mem_of_mem_take (List.mem_of_getLast? hlast))
      exact hstall.1 (by omega)

/-- Behind a page of one entry there is no stall either. -/
theorem noStall_behind (h : Ascending key rest) (hk : 1 ≤ k) (hfull : k ≤ rest.length)
    (hpages : 2 ≤ k ∨ NoStall key cursor (rest.filter fun x => key x ≤ stop)) {last : α}
    (hlast : (rest.take k).getLast? = some last) (hbelow : key last ≤ stop) :
    2 ≤ k ∨ NoStall key (key last + 1) ((rest.drop k).filter fun x => key x ≤ stop) := by
  rcases Nat.lt_or_ge k 2 with hsmall | hlarge
  · right
    have hone : rest.take k = [last] := by
      obtain ⟨front, hfront⟩ := List.getLast?_eq_some_iff.mp hlast
      have hlen := congrArg List.length hfront
      rw [List.length_take, Nat.min_eq_left hfull, List.length_append] at hlen
      have hnil : front = [] := List.length_eq_zero_iff.mp (by simp at hlen; omega)
      rw [hfront, hnil, List.nil_append]
    have hstall := hpages.resolve_left (by omega)
    rw [filter_of_page_below h hlast hbelow, hone] at hstall
    cases htail : (rest.drop k).filter fun y => key y ≤ stop with
    | nil => exact trivial
    | cons y tail =>
        rw [htail] at hstall
        exact hstall.2
  · exact Or.inl hlarge

/-- **Nothing is missed.** Pages with room for two entries, or pages of one entry without a stall:
every entry up to `stop` is read, if there are pages enough for them. -/
theorem mem_pages (h : Ascending key rest) (hcursor : ∀ x ∈ rest, cursor ≤ key x) (hk : 1 ≤ k)
    (hroom : (rest.filter fun x => key x ≤ stop).length ≤ n * k)
    (hpages : 2 ≤ k ∨ NoStall key cursor (rest.filter fun x => key x ≤ stop)) {x : α}
    (hx : x ∈ rest) (hstop : key x ≤ stop) : x ∈ pages key k stop n cursor rest := by
  induction n generalizing cursor rest with
  | zero =>
      rw [Nat.zero_mul] at hroom
      have hnil := List.length_eq_zero_iff.mp (Nat.le_zero.mp hroom)
      have hmem : x ∈ rest.filter fun x => key x ≤ stop :=
        List.mem_filter.mpr ⟨hx, decide_eq_true hstop⟩
      rw [hnil] at hmem
      cases hmem
  | succ n ih =>
      unfold pages
      have hsplit : x ∈ rest.take k ∨ x ∈ rest.drop k := by
        rw [← List.mem_append, List.take_append_drop]
        exact hx
      cases hlast : (rest.take k).getLast? with
      | none =>
          have hempty := List.getLast?_eq_none_iff.mp hlast
          have : rest = [] := by
            cases rest with
            | nil => rfl
            | cons y rest =>
                obtain ⟨j, rfl⟩ := Nat.exists_eq_add_of_le' hk
                simp at hempty
          rw [this] at hx
          cases hx
      | some last =>
          apply List.mem_append.mpr
          rcases hsplit with hpage | hbehind
          · exact Or.inl hpage
          right
          have hpast := lt_key_of_mem_drop h hlast hbehind
          have hbelow : key last ≤ stop := by omega
          have hfull : k ≤ rest.length := by
            by_contra hshort
            rw [List.drop_eq_nil_of_le (by omega)] at hbehind
            cases hbehind
          have hkept : x ∈ (rest.drop k).filter fun y => key y ≤ stop :=
            List.mem_filter.mpr ⟨hbehind, decide_eq_true hstop⟩
          have hmoves := page_moves h hcursor hfull hpages hlast hbelow hkept
          rw [if_neg (by omega)]
          apply ih (h.sublist (List.drop_sublist _ _))
          · intro y hy
            have := lt_key_of_mem_drop h hlast hy
            omega
          · rw [filter_of_page_below h hlast hbelow, List.length_append, List.length_take,
              Nat.min_eq_left hfull] at hroom
            have hmul : (n + 1) * k = n * k + k := Nat.succ_mul n k
            omega
          · exact noStall_behind h hk hfull hpages hlast hbelow
          · exact hbehind

/-- **The stall.** With pages of one entry, an entry at the cursor that others follow up to `stop`
ends the reading before one of them. -/
theorem exists_not_mem_pages (h : Ascending key rest)
    (hstall : ¬ NoStall key cursor (rest.filter fun x => key x ≤ stop)) :
    ∃ x ∈ rest, ∃ y ∈ rest, key x < key y ∧ key y ≤ stop ∧
      y ∉ pages key 1 stop n cursor rest := by
  induction n generalizing cursor rest with
  | zero =>
      cases hlist : rest.filter fun x => key x ≤ stop with
      | nil => rw [hlist] at hstall; exact absurd trivial hstall
      | cons x tail =>
          cases tail with
          | nil => rw [hlist] at hstall; exact absurd trivial hstall
          | cons y tail =>
              have hasc : Ascending key (x :: y :: tail) := hlist ▸ h.sublist List.filter_sublist
              have hx : x ∈ rest.filter fun x => key x ≤ stop := hlist ▸ List.mem_cons_self
              have hy : y ∈ rest.filter fun x => key x ≤ stop :=
                hlist ▸ List.mem_cons_of_mem _ List.mem_cons_self
              refine ⟨x, (List.mem_filter.mp hx).1, y, (List.mem_filter.mp hy).1,
                List.rel_of_pairwise_cons hasc List.mem_cons_self,
                of_decide_eq_true (List.mem_filter.mp hy).2, ?_⟩
              intro hmem
              cases hmem
  | succ n ih =>
      cases rest with
      | nil => exact absurd trivial hstall
      | cons x rest =>
          have hbehind : ∀ y ∈ rest, key x < key y := fun y hy => List.rel_of_pairwise_cons h hy
          by_cases hx : key x ≤ stop
          · rw [List.filter_cons_of_pos (by simpa using hx)] at hstall
            cases htail : rest.filter fun y => key y ≤ stop with
            | nil => rw [htail] at hstall; exact absurd trivial hstall
            | cons y tail =>
                have hy : y ∈ rest ∧ key y ≤ stop := by
                  have : y ∈ rest.filter fun y => key y ≤ stop := htail ▸ List.mem_cons_self
                  exact ⟨(List.mem_filter.mp this).1, of_decide_eq_true (List.mem_filter.mp this).2⟩
                by_cases hat : key x = cursor
                · -- the reader takes the entry at the cursor for no progress
                  refine ⟨x, List.mem_cons_self, y, List.mem_cons_of_mem _ hy.1, hbehind y hy.1,
                    hy.2, ?_⟩
                  have hpage : pages key 1 stop (n + 1) cursor (x :: rest) = [x] := by
                    simp [pages, hat]
                  rw [hpage, List.mem_singleton]
                  rintro rfl
                  exact absurd (hbehind y hy.1) (lt_irrefl _)
                · have hrest : ¬ NoStall key (key x + 1) (rest.filter fun y => key y ≤ stop) := by
                    intro hgood
                    rw [htail] at hstall hgood
                    exact hstall ⟨hat, hgood⟩
                  obtain ⟨u, hu, w, hw, huw, hwstop, hnot⟩ := ih (List.Pairwise.of_cons h) hrest
                  refine ⟨u, List.mem_cons_of_mem _ hu, w, List.mem_cons_of_mem _ hw, huw, hwstop, ?_⟩
                  have hne : w ≠ x := by
                    rintro rfl
                    exact absurd (hbehind w hw) (lt_irrefl _)
                  simp only [pages, List.take_succ_cons, List.take_zero, List.getLast?_singleton,
                    List.drop_succ_cons, List.drop_zero, List.mem_append, List.mem_singleton]
                  rintro (heq | hmem)
                  · exact hne heq
                  · split_ifs at hmem
                    · cases hmem
                    · exact hnot hmem
          · -- nothing behind an entry past `stop` is up to it
            have hnil : (x :: rest).filter (fun y => key y ≤ stop) = [] := by
              apply List.filter_eq_nil_iff.mpr
              intro y hy hle
              have hle := of_decide_eq_true hle
              rcases List.mem_cons.mp hy with rfl | hy
              · exact hx hle
              · have := hbehind y hy
                omega
            rw [hnil] at hstall
            exact absurd trivial hstall

end Lib.Paging
