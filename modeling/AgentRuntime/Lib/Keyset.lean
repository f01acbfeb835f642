import AgentRuntime.Lib.Ranking

/-!
# Keyset paging

A page of a history is the next `limit` rows after a key, in the order of the keys; the cursor of
the next page is the identity of the last row, if the page is full. A walk follows the cursors
through a history that may grow between two requests.

* `page`, `nextCursor`, `walk`: pages, cursors and walks;
* `Serves`: a source that answers requests with the pages of its rows;
* `Extends`: rows are added and none is lost or moved;
* `CompleteWalk`: what a walk should be: strictly increasing, without errors, and complete when it
  has ended;
* `walk_complete`, `walk_ends`: the walks along a growing history are.
-/

namespace AgentRuntime.Lib.Keyset

variable {α β ι κ ε τ : Type} [LinearOrder κ]

/-! ### Pages -/

/-- The rows after a key. -/
def above (key : α → κ) (bound : Option κ) (rows : List α) : List α :=
  rows.filter fun a => bound.all fun k => decide (k < key a)

/-- The first `limit` rows after a key. -/
def page (key : α → κ) (bound : Option κ) (limit : ℕ) (rows : List α) : List α :=
  ((above key bound rows).insertionSort fun a b => key a ≤ key b).take limit

/-- The cursor that goes with a page: a full page may have a successor. -/
def nextCursor (ident : α → ι) (limit : ℕ) (rows : List α) : Option ι :=
  if rows.length = limit then rows.getLast?.map ident else none

section Pages

variable {key : α → κ} {bound : Option κ} {limit : ℕ} {rows : List α} {a b : α}

theorem mem_above : a ∈ above key bound rows ↔ a ∈ rows ∧ ∀ k ∈ bound, k < key a := by
  cases bound <;> simp [above]

theorem mem_page (h : a ∈ page key bound limit rows) : a ∈ rows ∧ ∀ k ∈ bound, k < key a :=
  mem_above.mp (List.mem_insertionSort _ |>.mp (List.mem_of_mem_take h))

/-- The rows after a key come in the order of their keys. -/
theorem sorted_split : ((above key bound rows).insertionSort fun a b => key a ≤ key b).Pairwise
    fun a b => key a ≤ key b :=
  ranking_sorted key _

theorem page_pairwise (hkeys : (rows.map key).Nodup) :
    (page key bound limit rows).Pairwise fun a b => key a < key b := by
  have hsorted : (page key bound limit rows).Pairwise fun a b => key a ≤ key b :=
    sorted_split.take
  have hnodup : ((page key bound limit rows).map key).Nodup := by
    have hperm := (List.perm_insertionSort (fun a b => key a ≤ key b) (above key bound rows)).map key
    have habove : ((above key bound rows).map key).Nodup :=
      hkeys.sublist (List.filter_sublist.map key)
    exact (hperm.nodup_iff.mpr habove).sublist ((List.take_sublist ..).map key)
  have hne : (page key bound limit rows).Pairwise fun a b => key a ≠ key b :=
    List.pairwise_map.mp hnodup
  exact (hsorted.and hne).imp fun h => lt_of_le_of_ne h.1 h.2

/-- A row that is left out comes after a full page. -/
theorem page_leaves (habove : a ∈ above key bound rows) (hout : a ∉ page key bound limit rows) :
    (page key bound limit rows).length = limit
      ∧ ∀ b ∈ page key bound limit rows, key b ≤ key a := by
  set sorted := (above key bound rows).insertionSort fun a b => key a ≤ key b with hdef
  have hmem : a ∈ sorted.take limit ++ sorted.drop limit := by
    rw [List.take_append_drop]
    exact (List.mem_insertionSort _).mpr habove
  have hdrop : a ∈ sorted.drop limit := (List.mem_append.mp hmem).resolve_left hout
  constructor
  · have hlong : limit < sorted.length := by
      by_contra hshort
      rw [List.drop_eq_nil_of_le (not_lt.mp hshort)] at hdrop
      exact absurd hdrop List.not_mem_nil
    exact List.length_take_of_le hlong.le
  · intro b hb
    have hsplit : (sorted.take limit ++ sorted.drop limit).Pairwise fun a b => key a ≤ key b := by
      rw [List.take_append_drop]
      exact sorted_split
    exact (List.pairwise_append.mp hsplit).2.2 b hb a hdrop

/-- Fewer keys come after a later bound. -/
theorem length_above_lt {keys : List κ} {k : κ} (hk : k ∈ keys) (hbound : ∀ k' ∈ bound, k' < k) :
    (above id (some k) keys).length < (above id bound keys).length := by
  have hnested : above id (some k) keys = above id (some k) (above id bound keys) := by
    unfold above
    rw [List.filter_filter]
    refine List.filter_congr fun k' _ => ?_
    cases bound with
    | none => simp
    | some b =>
      have hb := hbound b rfl
      by_cases hlt : k < k'
      · simp [hlt, hb.trans hlt]
      · simp [hlt]
  rw [hnested]
  exact List.length_filter_lt_length_iff_exists.mpr ⟨k, mem_above.mpr ⟨hk, hbound⟩, by simp⟩

/-- Paging commutes with reading the rows as something else. -/
theorem page_map (f : β → α) (bound : Option κ) (limit : ℕ) (rows : List β) :
    page key bound limit (rows.map f) = (page (fun b => key (f b)) bound limit rows).map f := by
  have hsort : ∀ xs : List β, (xs.map f).insertionSort (fun a b => key a ≤ key b)
      = (xs.insertionSort fun a b => key (f a) ≤ key (f b)).map f := fun xs =>
    (List.map_insertionSort (fun a b => key (f a) ≤ key (f b)) (fun a b => key a ≤ key b) f xs
      fun _ _ _ _ => Iff.rfl).symm
  unfold page above
  rw [List.filter_map, List.map_take, hsort]
  rfl

/-- **A page does not depend on the order** in which the rows are stored. -/
theorem page_perm {rows' : List α} (hperm : rows.Perm rows') (hkeys : (rows.map key).Nodup)
    (bound : Option κ) (limit : ℕ) : page key bound limit rows = page key bound limit rows' := by
  have habove : (above key bound rows).Perm (above key bound rows') := hperm.filter _
  have hsame : ∀ a ∈ above key bound rows, ∀ b ∈ above key bound rows, key a = key b → a = b :=
    fun a ha b hb => List.inj_on_of_nodup_map hkeys (mem_above.mp ha).1 (mem_above.mp hb).1
  have hsorted : (above key bound rows).insertionSort (fun a b => key a ≤ key b)
      = (above key bound rows').insertionSort fun a b => key a ≤ key b := by
    refine @List.Perm.eq_of_pairwise _ (fun a b => key a ≤ key b) _ _ ?_ sorted_split sorted_split ?_
    · intro a b ha hb hab hba
      refine hsame a ((List.mem_insertionSort _).mp ha) b ?_ (le_antisymm hab hba)
      exact habove.mem_iff.mpr ((List.mem_insertionSort _).mp hb)
    · exact ((List.perm_insertionSort _ _).trans habove).trans (List.perm_insertionSort _ _).symm
  unfold page
  rw [hsorted]

end Pages

/-! ### Walks -/

/-- How far a walk has come: it waits with the cursor of its next request, it has ended for lack of
a cursor, or a request has failed. -/
inductive Progress (ι ε : Type) where
  | waiting (cursor : Option ι)
  | ended
  | failed (e : ε)

/-- A walk: the requests with the state of the source they meet and their limits. -/
def walk (ident : α → ι) (fetch : τ → ℕ → Option ι → Except ε (List α)) :
    Option ι → List (τ × ℕ) → List α × Progress ι ε
  | cursor, [] => ([], .waiting cursor)
  | cursor, (t, limit) :: rest =>
    match fetch t limit cursor with
    | .error e => ([], .failed e)
    | .ok rows =>
      match nextCursor ident limit rows with
      | none => (rows, .ended)
      | some next =>
        let later := walk ident fetch (some next) rest
        (rows ++ later.1, later.2)

/-- Every row is still there, in its place. -/
def Extends (ident : α → ι) (key : α → κ) (rows rows' : List α) : Prop :=
  ∀ a ∈ rows, ∃ b ∈ rows', ident b = ident a ∧ key b = key a

/-- The source answers with the pages of `rows`, which have distinct keys. -/
structure Serves (ident : α → ι) (key : α → κ) (fetch : ℕ → Option ι → Except ε (List α))
    (limit : ℕ) (rows : List α) : Prop where
  positive : 1 ≤ limit
  distinct : (rows.map key).Nodup
  first : fetch limit none = .ok (page key none limit rows)
  after : ∀ a ∈ rows, fetch limit (some (ident a)) = .ok (page key (some (key a)) limit rows)

/-- What a walk through `requests` should be. -/
structure CompleteWalk (ident : α → ι) (key : α → κ) (rows : τ → List α)
    (requests : List (τ × ℕ)) (result : List α × Progress ι ε) : Prop where
  increasing : result.1.Pairwise fun a b => key a < key b
  genuine : ∀ a ∈ result.1, ∃ q ∈ requests, a ∈ rows q.1
  served : ∀ e, result.2 ≠ .failed e
  complete : result.2 = .ended → ∀ q ∈ requests.head?, ∀ a ∈ rows q.1,
    ∃ b ∈ result.1, ident b = ident a ∧ key b = key a

section Walks

variable {ident : α → ι} {key : α → κ} {fetch : τ → ℕ → Option ι → Except ε (List α)}
  {rows : τ → List α} {requests : List (τ × ℕ)} {cursor : Option ι} {bound : Option κ}

/-- The cursor is a row of the source, and the bound is its key. -/
def Anchored (ident : α → ι) (key : α → κ) (rows : List α) (cursor : Option ι)
    (bound : Option κ) : Prop :=
  (cursor = none ∧ bound = none) ∨ ∃ a ∈ rows, cursor = some (ident a) ∧ bound = some (key a)

variable {t : τ}

variable {limit : ℕ}

theorem Anchored.fetched (h : Anchored ident key (rows t) cursor bound)
    (hserves : Serves ident key (fetch t) limit (rows t)) :
    fetch t limit cursor = .ok (page key bound limit (rows t)) := by
  rcases h with ⟨rfl, rfl⟩ | ⟨a, ha, rfl, rfl⟩
  · exact hserves.first
  · exact hserves.after a ha

omit [LinearOrder κ] in
theorem Anchored.extends {rows rows' : List α} (h : Anchored ident key rows cursor bound)
    (hgrow : Extends ident key rows rows') : Anchored ident key rows' cursor bound := by
  rcases h with ⟨rfl, rfl⟩ | ⟨a, ha, rfl, rfl⟩
  · exact .inl ⟨rfl, rfl⟩
  · obtain ⟨b, hb, hident, hkey⟩ := hgrow a ha
    exact .inr ⟨b, hb, by rw [hident], by rw [hkey]⟩

variable {rest : List (τ × ℕ)}

omit [LinearOrder κ] in
/-- A row that has been returned anchors the next request. -/
theorem anchored_next {rows : τ → List α} {last : α} (hmem : last ∈ rows t)
    (hextends : ∀ q ∈ rest, Extends ident key (rows t) (rows q.1)) :
    ∀ q ∈ rest.head?, Anchored ident key (rows q.1) (some (ident last)) (some (key last)) := by
  intro q hq
  have hstart : Anchored ident key (rows t) (some (ident last)) (some (key last)) :=
    .inr ⟨last, hmem, rfl, rfl⟩
  exact hstart.extends (hextends q (List.mem_of_mem_head? hq))

variable {xs : List α}

/-- A page with a successor ends with the row the successor starts after. -/
theorem nextCursor_eq_some {next : ι} (h : nextCursor ident limit xs = some next) :
    ∃ last ∈ xs, xs.getLast? = some last ∧ next = ident last := by
  unfold nextCursor at h
  split at h
  · obtain ⟨last, hlast, rfl⟩ := Option.map_eq_some_iff.mp h
    exact ⟨last, List.mem_of_getLast? hlast, hlast, rfl⟩
  · exact absurd h (by simp)

theorem nextCursor_eq_none (hlimit : 1 ≤ limit) (h : nextCursor ident limit xs = none) :
    xs.length ≠ limit := by
  intro hfull
  rw [nextCursor, if_pos hfull, Option.map_eq_none_iff, List.getLast?_eq_none_iff] at h
  rw [h, List.length_nil] at hfull
  omega

/-- The last row of an increasing list has the largest key. -/
theorem key_le_last {last a : α} (hsorted : xs.Pairwise fun a b => key a < key b)
    (hlast : xs.getLast? = some last) (ha : a ∈ xs) : key a ≤ key last := by
  obtain ⟨front, rfl⟩ := List.getLast?_eq_some_iff.mp hlast
  rcases List.mem_append.mp ha with hfront | hend
  · exact ((List.pairwise_append.mp hsorted).2.2 a hfront last (List.mem_singleton_self _)).le
  · rw [List.mem_singleton.mp hend]

/-- What holds of a walk that goes on after a bound. -/
structure WalkAbove (ident : α → ι) (key : α → κ) (rows : τ → List α) (bound : Option κ)
    (requests : List (τ × ℕ)) (result : List α × Progress ι ε) : Prop where
  higher : ∀ a ∈ result.1, ∀ k ∈ bound, k < key a
  increasing : result.1.Pairwise fun a b => key a < key b
  genuine : ∀ a ∈ result.1, ∃ q ∈ requests, a ∈ rows q.1
  served : ∀ e, result.2 ≠ .failed e
  complete : result.2 = .ended → ∀ q ∈ requests.head?, ∀ a ∈ above key bound (rows q.1),
    ∃ b ∈ result.1, ident b = ident a ∧ key b = key a

/-- A page that is not full holds everything after the bound. -/
theorem WalkAbove.short (hserve : Serves ident key (fetch t) limit (rows t))
    (hshort : (page key bound limit (rows t)).length ≠ limit) :
    WalkAbove (ε := ε) ident key rows bound ((t, limit) :: rest)
      (page key bound limit (rows t), .ended) where
  higher _ ha := (mem_page ha).2
  increasing := page_pairwise hserve.distinct
  genuine _ ha := ⟨_, List.mem_cons_self, (mem_page ha).1⟩
  served := by simp
  complete _ q hq a ha := by
    obtain rfl : (t, limit) = q := Option.some.inj hq
    refine ⟨a, ?_, rfl, rfl⟩
    by_contra hout
    exact hshort (page_leaves ha hout).1

/-- A page, and what a walk from its last row finds. -/
theorem WalkAbove.append {last : α} {later : List α × Progress ι ε}
    (hserve : Serves ident key (fetch t) limit (rows t))
    (hlast : (page key bound limit (rows t)).getLast? = some last)
    (hextends : ∀ q ∈ rest, Extends ident key (rows t) (rows q.1))
    (hlater : WalkAbove ident key rows (some (key last)) rest later)
    (hwaiting : rest = [] → later.2 ≠ .ended) :
    WalkAbove ident key rows bound ((t, limit) :: rest)
      (page key bound limit (rows t) ++ later.1, later.2) := by
  have hsorted : (page key bound limit (rows t)).Pairwise fun a b => key a < key b :=
    page_pairwise hserve.distinct
  have hmem : last ∈ page key bound limit (rows t) := List.mem_of_getLast? hlast
  refine ⟨?_, ?_, ?_, hlater.served, ?_⟩
  · intro a ha k hk
    rcases List.mem_append.mp ha with hpage | hrest
    · exact (mem_page hpage).2 k hk
    · exact ((mem_page hmem).2 k hk).trans (hlater.higher a hrest _ rfl)
  · refine List.pairwise_append.mpr ⟨hsorted, hlater.increasing, fun a ha b hb => ?_⟩
    exact (key_le_last hsorted hlast ha).trans_lt (hlater.higher b hb _ rfl)
  · intro a ha
    rcases List.mem_append.mp ha with hpage | hrest
    · exact ⟨_, List.mem_cons_self, (mem_page hpage).1⟩
    · obtain ⟨q, hq, haq⟩ := hlater.genuine a hrest
      exact ⟨q, List.mem_cons_of_mem _ hq, haq⟩
  · intro hended q hq a ha
    obtain rfl : (t, limit) = q := Option.some.inj hq
    by_cases hpage : a ∈ page key bound limit (rows t)
    · exact ⟨a, List.mem_append_left _ hpage, rfl, rfl⟩
    · -- The row comes after the page, so a later request has to find it.
      have hrow := (mem_above.mp ha).1
      have hne : key last ≠ key a := fun heq =>
        hpage (List.inj_on_of_nodup_map hserve.distinct (mem_page hmem).1 hrow heq ▸ hmem)
      have hlt : key last < key a := lt_of_le_of_ne ((page_leaves ha hpage).2 last hmem) hne
      cases rest with
      | nil => exact absurd hended (hwaiting rfl)
      | cons q' rest' =>
        obtain ⟨b, hb, hident, hkey⟩ := hextends q' List.mem_cons_self a hrow
        have hbabove : b ∈ above key (some (key last)) (rows q'.1) :=
          mem_above.mpr ⟨hb, by simpa [hkey] using hlt⟩
        obtain ⟨c, hc, hcident, hckey⟩ := hlater.complete hended q' rfl b hbabove
        exact ⟨c, List.mem_append_right _ hc, hcident.trans hident, hckey.trans hkey⟩

/-- The walk from a cursor: by induction on the requests, with the cursor anchored in the state the
first of them meets. -/
theorem walk_above (hserves : ∀ q ∈ requests, Serves ident key (fetch q.1) q.2 (rows q.1))
    (hgrow : requests.Pairwise fun p q => Extends ident key (rows p.1) (rows q.1))
    (hanchor : ∀ q ∈ requests.head?, Anchored ident key (rows q.1) cursor bound) :
    WalkAbove ident key rows bound requests (walk ident fetch cursor requests) := by
  induction requests generalizing cursor bound with
  | nil =>
    exact ⟨by simp [walk], by simp [walk], by simp [walk], by simp [walk], by simp [walk]⟩
  | cons q rest ih =>
    obtain ⟨t, limit⟩ := q
    have hserve := hserves (t, limit) List.mem_cons_self
    rw [walk, (hanchor (t, limit) rfl).fetched hserve]
    dsimp only
    cases hnext : nextCursor ident limit (page key bound limit (rows t)) with
    | none => exact .short hserve (nextCursor_eq_none hserve.positive hnext)
    | some next =>
      obtain ⟨last, hmem, hlast, rfl⟩ := nextCursor_eq_some hnext
      have hextends : ∀ q ∈ rest, Extends ident key (rows t) (rows q.1) :=
        (List.pairwise_cons.mp hgrow).1
      refine .append hserve hlast hextends (ih (fun q hq => hserves q
        (List.mem_cons_of_mem _ hq)) (List.pairwise_cons.mp hgrow).2
        (anchored_next (mem_page hmem).1 hextends)) ?_
      rintro rfl
      simp [walk]

/-- **A walk along a growing history is complete.** -/
theorem walk_complete (hserves : ∀ q ∈ requests, Serves ident key (fetch q.1) q.2 (rows q.1))
    (hgrow : requests.Pairwise fun p q => Extends ident key (rows p.1) (rows q.1)) :
    CompleteWalk ident key rows requests (walk ident fetch none requests) := by
  have h : WalkAbove ident key rows none requests (walk ident fetch none requests) :=
    walk_above hserves hgrow fun q _ => .inl ⟨rfl, rfl⟩
  exact ⟨h.increasing, h.genuine, h.served, fun hended q hq a ha =>
    h.complete hended q hq a (mem_above.mpr ⟨ha, by simp⟩)⟩

/-- **A walk along a history that does not grow ends.** One request more than there are keys after
the bound is enough. -/
theorem walk_ends {keys : List κ}
    (hserves : ∀ q ∈ requests, Serves ident key (fetch q.1) q.2 (rows q.1))
    (hkeys : ∀ q ∈ requests, (rows q.1).map key = keys)
    (hgrow : requests.Pairwise fun p q => Extends ident key (rows p.1) (rows q.1))
    (hanchor : ∀ q ∈ requests.head?, Anchored ident key (rows q.1) cursor bound)
    (henough : (above id bound keys).length < requests.length) :
    (walk ident fetch cursor requests).2 = .ended := by
  induction requests generalizing cursor bound with
  | nil => exact absurd henough (Nat.not_lt_zero _)
  | cons q rest ih =>
    obtain ⟨t, limit⟩ := q
    rw [walk, (hanchor (t, limit) rfl).fetched (hserves (t, limit) List.mem_cons_self)]
    dsimp only
    cases hnext : nextCursor ident limit (page key bound limit (rows t)) with
    | none => rfl
    | some next =>
      obtain ⟨last, hmem, -, rfl⟩ := nextCursor_eq_some hnext
      have hlast : key last ∈ keys := by
        rw [← hkeys (t, limit) List.mem_cons_self]
        exact List.mem_map_of_mem (mem_page hmem).1
      have hfewer : (above id (some (key last)) keys).length < (above id bound keys).length :=
        length_above_lt hlast (mem_page hmem).2
      have hextends : ∀ q ∈ rest, Extends ident key (rows t) (rows q.1) :=
        (List.pairwise_cons.mp hgrow).1
      rw [List.length_cons] at henough
      exact ih (fun q hq => hserves q (List.mem_cons_of_mem _ hq))
        (fun q hq => hkeys q (List.mem_cons_of_mem _ hq)) (List.pairwise_cons.mp hgrow).2
        (anchored_next (mem_page hmem).1 hextends) (by omega)

end Walks

end AgentRuntime.Lib.Keyset
