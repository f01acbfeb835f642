import AgentRuntime.Application.JsonRoundTrip
import AgentRuntime.Lib.Base64

/-!
# The canonical request text is faithful

Two requests have the same canonical text exactly if they are equal up to the order of members at
every level. One direction is that a text determines the value it was written from, for any values
at all: a reader that keeps number texts as they are reads it back. The other is that sorting the
members of every object forgets their order and nothing else.

* `tokenReader`, `TextStyle.Readable.text_injective`: texts determine values;
* `render_eq_text`: the canonical text is written in the unescaped style;
* `Reordered`: equality up to the order of members; `reordered_canon`, `Reordered.canon_eq`;
* `canonical_text_faithful`: the two directions together, for texts and for hashes.
-/

namespace AgentRuntime.Application

open Domain Lib

/-! ### Texts determine values -/

/-- The integer a number text denotes. -/
def tokenInt : List Char → ℤ
  | '-' :: ds => -digitsValue ds
  | ds => digitsValue ds

/-- A reader that keeps the texts of floats and the members of objects as they are. -/
def tokenReader : Reader where
  number cs :=
    if h : (floatTextValue (cs.takeWhile isNumberChar)).isSome = true then
      some (.float (.finite ⟨cs.takeWhile isNumberChar, h⟩), cs.dropWhile isNumberChar)
    else some (.int (tokenInt (cs.takeWhile isNumberChar)), cs.dropWhile isNumberChar)
  object := id

theorem isNumberChar_of_isDigit {c : Char} (h : c.isDigit = true) : isNumberChar c = true := by
  simp [isNumberChar, h]

theorem unsignedValue_natText (n : ℕ) : unsignedValue (natText n) = none := by
  obtain ⟨hne, hdigits, -⟩ := natText_digits n
  have hspan : (natText n ++ []).takeWhile Char.isDigit = natText n
      ∧ (natText n ++ []).dropWhile Char.isDigit = [] := span_append hdigits (by simp)
  rw [List.append_nil] at hspan
  unfold unsignedValue
  rw [hspan.1, hspan.2]
  simp [hne]

theorem natText_cons_ne (n : ℕ) (ds : List Char) : natText n ≠ '-' :: ds := by
  obtain ⟨d, ds', htext, hd⟩ := startsNumber_natText n
  rw [htext]
  intro heq
  exact ne_of_isDigit hd rfl (List.cons.inj heq).1.symm

/-- An integer text is no float text, and it denotes its integer. -/
theorem intText_token (n : ℤ) :
    floatTextValue (intText n) = none ∧ tokenInt (intText n) = n
      ∧ ∀ c ∈ intText n, isNumberChar c = true := by
  have hvalue : digitsValue (natText n.natAbs) = n.natAbs := by rw [natText_eq, digitsValue_toDigits]
  have hchars : ∀ c ∈ natText n.natAbs, isNumberChar c = true := fun c hc =>
    isNumberChar_of_isDigit ((natText_digits n.natAbs).2.1 c hc)
  unfold intText
  split_ifs with hneg
  · refine ⟨?_, ?_, ?_⟩
    · show (unsignedValue (natText n.natAbs)).map _ = none
      rw [unsignedValue_natText]
      rfl
    · show -(digitsValue (natText n.natAbs) : ℤ) = n
      rw [hvalue]
      omega
    · intro c hc
      rcases List.mem_cons.mp hc with rfl | hc
      · rfl
      · exact hchars c hc
  · refine ⟨?_, ?_, hchars⟩
    · unfold floatTextValue
      split
      · rename_i heq
        exact absurd heq (natText_cons_ne _ _)
      · exact unsignedValue_natText _
    · unfold tokenInt
      split
      · rename_i heq
        exact absurd heq (natText_cons_ne _ _)
      · rw [hvalue]
        omega

theorem tokenReader_readsIntegers : tokenReader.ReadsIntegers := by
  intro n rest hrest
  obtain ⟨hfloat, hint, hchars⟩ := intText_token n
  obtain ⟨htake, hdrop⟩ := span_append hchars hrest
  show (if h : (floatTextValue ((intText n ++ rest).takeWhile isNumberChar)).isSome = true then
      some (Json.float (.finite ⟨(intText n ++ rest).takeWhile isNumberChar, h⟩),
        (intText n ++ rest).dropWhile isNumberChar)
    else some (.int (tokenInt ((intText n ++ rest).takeWhile isNumberChar)),
      (intText n ++ rest).dropWhile isNumberChar)) = _
  rw [dif_neg (by rw [htake, hfloat]; simp), htake, hdrop, hint]

/-- A float text is made of characters a number can go on with. -/
theorem floatText_token {cs : List Char} (h : (unsignedValue cs).isSome = true) :
    (∃ d ds, cs = d :: ds ∧ d.isDigit = true) ∧ ∀ c ∈ cs, isNumberChar c = true := by
  obtain ⟨whole, fraction, exponent, rfl, hwhole, hfraction, hexponent, -⟩ := unsignedValue_parts h
  refine ⟨startsNumber_of_digits hwhole, ?_⟩
  intro c hc
  rcases List.mem_append.mp hc with hc | hc
  · exact isNumberChar_of_isDigit (hwhole.2 c hc)
  · rcases List.mem_append.mp hc with hc | hc
    · obtain rfl | ⟨ds, hds, rfl⟩ := hfraction
      · cases hc
      · rcases List.mem_cons.mp hc with rfl | hc
        · rfl
        · exact isNumberChar_of_isDigit (hds.2 c hc)
    · obtain rfl | ⟨sign, ds, hsign, hds, rfl⟩ := hexponent
      · cases hc
      · rcases List.mem_cons.mp hc with rfl | hc
        · rfl
        · rcases List.mem_cons.mp hc with rfl | hc
          · obtain rfl | rfl := hsign
            · rfl
            · rfl
          · exact isNumberChar_of_isDigit (hds.2 c hc)

theorem tokenReader_readsNode (v : Json) : tokenReader.ReadsNode v := by
  unfold Reader.ReadsNode
  split
  · rename_i t
    obtain ⟨cs, hvalue⟩ := t
    have htoken : StartsNumber cs ∧ ∀ c ∈ cs, isNumberChar c = true := by
      have hparts := hvalue
      unfold floatTextValue at hparts
      split at hparts
      · rename_i ds
        rw [Option.isSome_map] at hparts
        obtain ⟨⟨d, ds, rfl, hd⟩, hchars⟩ := floatText_token hparts
        exact ⟨⟨d, ds, hd, .inr rfl⟩, List.forall_mem_cons.mpr ⟨rfl, hchars⟩⟩
      · obtain ⟨⟨d, ds, rfl, hd⟩, hchars⟩ := floatText_token hparts
        exact ⟨⟨d, ds, hd, .inl rfl⟩, hchars⟩
    refine ⟨htoken.1, fun rest hrest => ?_⟩
    obtain ⟨htake, hdrop⟩ := span_append htoken.2 hrest
    show (if h : (floatTextValue ((cs ++ rest).takeWhile isNumberChar)).isSome = true then
        some (Json.float (.finite ⟨(cs ++ rest).takeWhile isNumberChar, h⟩),
          (cs ++ rest).dropWhile isNumberChar)
      else some (.int (tokenInt ((cs ++ rest).takeWhile isNumberChar)),
        (cs ++ rest).dropWhile isNumberChar)) = _
    simp only [htake, hdrop, hvalue, dif_pos]
  · rfl
  · trivial

theorem Every.of_forall {P : Json → Prop} (h : ∀ v, P v) (v : Json) : Every P v := by
  induction v using Json.induction with
  | arr xs ih => exact ⟨h _, everyItem_iff.mpr ih⟩
  | obj ms ih => exact ⟨h _, everyMember_iff.mpr ih⟩
  | _ => exact h _

/-- **Texts determine values**, whatever the values are. -/
theorem TextStyle.Readable.text_injective {S : TextStyle} (hS : S.Readable) :
    Function.Injective S.text := by
  intro v w h
  have hread : ∀ u, tokenReader.document (S.text u) = some u := fun u =>
    Reader.document_text hS tokenReader_readsIntegers (Every.of_forall tokenReader_readsNode u)
  exact Option.some.inj ((hread v).symm.trans ((congrArg _ h).trans (hread w)))

/-! ### The canonical text -/

theorem renderList_eq_itemsText {x : Json} {xs : List Json}
    (h : ∀ y ∈ x :: xs, render y = unescapedStyle.text y) :
    renderList (x :: xs) ++ [']'] = unescapedStyle.text x ++ unescapedStyle.itemsText xs := by
  induction xs generalizing x with
  | nil => rw [renderList, h x List.mem_cons_self, TextStyle.itemsText]
  | cons y ys ih =>
    have hrest := ih fun z hz => h z (List.mem_cons_of_mem _ hz)
    rw [renderList, h x List.mem_cons_self, List.append_assoc, List.cons_append, hrest]
    rfl

theorem renderMembers_eq_membersText {m : String × Json} {ms : List (String × Json)}
    (h : ∀ n ∈ m :: ms, render n.2 = unescapedStyle.text n.2) :
    renderMembers (m :: ms) ++ ['}']
      = unescapedStyle.string m.1 ++ (unescapedStyle.colon
        ++ (unescapedStyle.text m.2 ++ unescapedStyle.membersText ms)) := by
  induction ms generalizing m with
  | nil =>
    rw [renderMembers, h m List.mem_cons_self, List.append_assoc]
    rfl
  | cons n ns ih =>
    have hrest := ih fun o ho => h o (List.mem_cons_of_mem _ ho)
    rw [renderMembers, h m List.mem_cons_self, List.append_assoc, List.append_assoc,
      List.cons_append, List.cons_append, hrest]
    rfl

/-- **The canonical text** is written in the unescaped style. -/
theorem render_eq_text (v : Json) : render v = unescapedStyle.text v := by
  induction v using Json.induction with
  | bool b => cases b <;> rfl
  | arr xs ih =>
    cases xs with
    | nil => rfl
    | cons x xs => exact congrArg _ (renderList_eq_itemsText ih)
  | obj ms ih =>
    cases ms with
    | nil => rfl
    | cons m ms => exact congrArg _ (renderMembers_eq_membersText ih)
  | _ => rfl

variable {v w : Json}

/-- Equal texts are texts of equal canonical forms. -/
theorem dumps_eq_iff : dumps v = dumps w ↔ canon v = canon w := by
  constructor
  · intro h
    have htext : render (canon v) = render (canon w) := String.ofList_injective h
    rw [render_eq_text, render_eq_text] at htext
    exact readable_unescapedStyle.text_injective htext
  · intro h
    unfold dumps
    rw [h]

/-! ### Equality up to the order of members -/

/-- The second value is the first one with members of objects in another order, at any level. -/
inductive Reordered : Json → Json → Prop
  | refl (v : Json) : Reordered v v
  | trans {u v w : Json} : Reordered u v → Reordered v w → Reordered u w
  | members {ms ns : JsonObject} : ms.Perm ns → Reordered (.obj ms) (.obj ns)
  | item {v w : Json} (xs ys : List Json) :
      Reordered v w → Reordered (.arr (xs ++ v :: ys)) (.arr (xs ++ w :: ys))
  | member {v w : Json} (ms ns : JsonObject) (key : String) :
      Reordered v w → Reordered (.obj (ms ++ (key, v) :: ns)) (.obj (ms ++ (key, w) :: ns))

theorem Reordered.symm (h : Reordered v w) : Reordered w v := by
  induction h with
  | refl v => exact .refl v
  | trans _ _ ih ih' => exact ih'.trans ih
  | members hperm => exact .members hperm.symm
  | item xs ys _ ih => exact .item xs ys ih
  | member ms ns key _ ih => exact .member ms ns key ih

/-- Reordering inside all items. -/
theorem Reordered.items (xs ys : List Json) (h : ∀ y ∈ ys, Reordered y (canon y)) :
    Reordered (.arr (xs ++ ys)) (.arr (xs ++ canonList ys)) := by
  induction ys generalizing xs with
  | nil => exact .refl _
  | cons y ys ih =>
    have hfirst := Reordered.item xs ys (h y List.mem_cons_self)
    have hrest := ih (xs ++ [canon y]) fun z hz => h z (List.mem_cons_of_mem _ hz)
    rw [List.append_assoc, List.append_assoc] at hrest
    exact hfirst.trans hrest

/-- Reordering inside the values of all members. -/
theorem Reordered.values (ms ns : JsonObject) (h : ∀ n ∈ ns, Reordered n.2 (canon n.2)) :
    Reordered (.obj (ms ++ ns)) (.obj (ms ++ canonMembers ns)) := by
  induction ns generalizing ms with
  | nil => exact .refl _
  | cons n ns ih =>
    have hfirst := Reordered.member ms ns n.1 (h n List.mem_cons_self)
    have hrest := ih (ms ++ [(n.1, canon n.2)]) fun o ho => h o (List.mem_cons_of_mem _ ho)
    rw [List.append_assoc, List.append_assoc] at hrest
    exact hfirst.trans hrest

/-- **The canonical form** is a reordering. -/
theorem reordered_canon (v : Json) : Reordered v (canon v) := by
  induction v using Json.induction with
  | arr xs ih => exact Reordered.items [] xs ih
  | obj ms ih =>
    exact (Reordered.values [] ms ih).trans (.members (List.perm_insertionSort _ _).symm)
  | _ => exact .refl _

/-- The keys of every object are different, as in a dictionary. -/
def DistinctKeys (v : Json) : Prop :=
  Every (fun | .obj ms => (ms.map Prod.fst).Nodup | _ => True) v

theorem distinctKeys_arr {xs : List Json} :
    DistinctKeys (.arr xs) ↔ ∀ x ∈ xs, DistinctKeys x :=
  ⟨fun h => everyItem_iff.mp h.2, fun h => ⟨trivial, everyItem_iff.mpr h⟩⟩

theorem distinctKeys_obj {ms : JsonObject} :
    DistinctKeys (.obj ms) ↔ (ms.map Prod.fst).Nodup ∧ ∀ m ∈ ms, DistinctKeys m.2 :=
  ⟨fun h => ⟨h.1, everyMember_iff.mp h.2⟩, fun h => ⟨h.1, everyMember_iff.mpr h.2⟩⟩

/-- A reordering of dictionaries is made of dictionaries. -/
theorem Reordered.distinctKeys (h : Reordered v w) (hv : DistinctKeys v) : DistinctKeys w := by
  induction h with
  | refl v => exact hv
  | trans _ _ ih ih' => exact ih' (ih hv)
  | members hperm =>
    rw [distinctKeys_obj] at hv ⊢
    exact ⟨(hperm.map Prod.fst).nodup_iff.mp hv.1, fun m hm => hv.2 m (hperm.mem_iff.mpr hm)⟩
  | item xs ys _ ih =>
    rw [distinctKeys_arr, List.forall_mem_append, List.forall_mem_cons] at hv ⊢
    exact ⟨hv.1, ih hv.2.1, hv.2.2⟩
  | member ms ns key _ ih =>
    rw [distinctKeys_obj, List.forall_mem_append, List.forall_mem_cons, List.map_append,
      List.map_cons] at hv ⊢
    exact ⟨hv.1, hv.2.1, ih hv.2.2.1, hv.2.2.2⟩

theorem canonList_eq_map (xs : List Json) : canonList xs = xs.map canon := by
  induction xs with
  | nil => rfl
  | cons x xs ih => rw [canonList, ih, List.map_cons]

theorem canonMembers_eq_map (ms : JsonObject) :
    canonMembers ms = ms.map fun m => (m.1, canon m.2) := by
  induction ms with
  | nil => rfl
  | cons m ms ih => rw [canonMembers, ih, List.map_cons]

/-- Sorting forgets the order of members with different keys. -/
theorem sortMembers_eq_of_perm {ms ns : JsonObject} (hperm : ms.Perm ns)
    (hnodup : (ms.map Prod.fst).Nodup) : sortMembers ms = sortMembers ns := by
  have htotal : Std.Total fun m n : String × Json => m.1 ≤ n.1 := ⟨fun m n => le_total m.1 n.1⟩
  have htrans : IsTrans (String × Json) fun m n => m.1 ≤ n.1 := ⟨fun _ _ _ h h' => le_trans h h'⟩
  have hsorted : ∀ os : JsonObject, (sortMembers os).Pairwise fun m n => m.1 ≤ n.1 := fun os =>
    List.pairwise_insertionSort (fun m n : String × Json => m.1 ≤ n.1) os
  have hsame : (sortMembers ms).Perm (sortMembers ns) :=
    (List.perm_insertionSort _ ms).trans (hperm.trans (List.perm_insertionSort _ ns).symm)
  refine hsame.eq_of_pairwise (fun m n hm hn hle hge => ?_) (hsorted ms) (hsorted ns)
  have hm' : m ∈ ms := (List.perm_insertionSort _ ms).mem_iff.mp hm
  have hn' : n ∈ ms := hperm.mem_iff.mpr ((List.perm_insertionSort _ ns).mem_iff.mp hn)
  exact List.inj_on_of_nodup_map hnodup hm' hn' (le_antisymm hle hge)

/-- **Reorderings have one canonical form.** -/
theorem Reordered.canon_eq (h : Reordered v w) (hv : DistinctKeys v) : canon v = canon w := by
  induction h with
  | refl v => rfl
  | trans huv _ ih ih' => exact (ih hv).trans (ih' (huv.distinctKeys hv))
  | @members ms ns hperm =>
    have hkeys : ((canonMembers ms).map Prod.fst).Nodup := by
      rw [canonMembers_eq_map, List.map_map]
      exact (distinctKeys_obj.mp hv).1
    refine congrArg Json.obj (sortMembers_eq_of_perm ?_ hkeys)
    rw [canonMembers_eq_map, canonMembers_eq_map]
    exact hperm.map _
  | item xs ys _ ih =>
    rw [distinctKeys_arr, List.forall_mem_append, List.forall_mem_cons] at hv
    rw [canon, canon, canonList_eq_map, canonList_eq_map, List.map_append, List.map_append,
      List.map_cons, List.map_cons, ih hv.2.1]
  | member ms ns key _ ih =>
    rw [distinctKeys_obj, List.forall_mem_append, List.forall_mem_cons] at hv
    rw [canon, canon, canonMembers_eq_map, canonMembers_eq_map, List.map_append, List.map_append,
      List.map_cons, List.map_cons, ih hv.2.2.1]

/-- **Canonical forms decide** equality up to the order of members. -/
theorem canon_eq_iff (hv : DistinctKeys v) : canon v = canon w ↔ Reordered v w := by
  constructor
  · intro h
    exact (reordered_canon v).trans (h ▸ (reordered_canon w).symm)
  · intro h
    exact h.canon_eq hv

/-! ### Requests -/

theorem canon_requestObject (i p : JsonObject) :
    canon (requestObject i p) = .obj [("input", canon (.obj i)), ("policy", canon (.obj p))] := by
  have hsorted : ∀ v w : Json, sortMembers [("input", v), ("policy", w)]
      = [("input", v), ("policy", w)] := by
    intro v w
    have hle : ("input" : String) ≤ "policy" := by decide
    simp [sortMembers, List.insertionSort, hle]
  exact congrArg Json.obj (hsorted _ _)

theorem canon_requestObject_eq_iff {i p i' p' : JsonObject} :
    canon (requestObject i p) = canon (requestObject i' p') ↔
      canon (.obj i) = canon (.obj i') ∧ canon (.obj p) = canon (.obj p') := by
  rw [canon_requestObject, canon_requestObject]
  simp

/-- **The canonical request text is faithful.** Two requests have the same text, and with an
injective digest the same hash, exactly if their inputs and their policies are equal up to the order
of members at every level. -/
theorem canonical_text_faithful [Externals] (i p i' p' : JsonObject) (hi : DistinctKeys (.obj i))
    (hp : DistinctKeys (.obj p)) :
    (dumps (requestObject i p) = dumps (requestObject i' p') ↔
      Reordered (.obj i) (.obj i') ∧ Reordered (.obj p) (.obj p'))
    ∧ (Function.Injective Externals.sha256 →
        (canonicalRequestHash i p = canonicalRequestHash i' p' ↔
          Reordered (.obj i) (.obj i') ∧ Reordered (.obj p) (.obj p'))) := by
  have htext : dumps (requestObject i p) = dumps (requestObject i' p') ↔
      Reordered (.obj i) (.obj i') ∧ Reordered (.obj p) (.obj p') := by
    rw [dumps_eq_iff, canon_requestObject_eq_iff, canon_eq_iff hi, canon_eq_iff hp]
  refine ⟨htext, fun hsha => ?_⟩
  rw [← htext]
  unfold canonicalRequestHash
  exact ⟨fun h => String.toByteArray_inj.mp (hsha h), fun h => by rw [h]⟩

/-- A digest that keeps everything. -/
def byteText (bytes : ByteArray) : String := String.ofList (Base64.encode bytes.data.toList)

theorem byteText_injective : Function.Injective byteText := by
  intro x y h
  have hbytes := congrArg Base64.decode? (String.ofList_injective h)
  rw [Base64.decode?_encode, Base64.decode?_encode] at hbytes
  exact ByteArray.ext (Array.toList_inj.mp (Option.some.inj hbytes))

/-- Two orders of the same members. -/
theorem canonical_text_faithful_swap :
    let _ : Externals := ⟨byteText, fun _ => .ok ()⟩
    canonicalRequestHash [("a", .int 1), ("b", .str "\"")] []
      = canonicalRequestHash [("b", .str "\""), ("a", .int 1)] [] := by
  intro _
  have hkeys : DistinctKeys (.obj [("a", .int 1), ("b", .str "\"")]) :=
    distinctKeys_obj.mpr ⟨by decide, by simp [DistinctKeys, Every]⟩
  have hempty : DistinctKeys (.obj []) := distinctKeys_obj.mpr ⟨List.nodup_nil, by simp⟩
  exact ((canonical_text_faithful _ _ _ _ hkeys hempty).2 byteText_injective).mpr
    ⟨.members (List.Perm.swap _ _ _), .refl _⟩

end AgentRuntime.Application
