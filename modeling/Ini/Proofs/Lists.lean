import Ini.Proofs.Text.Lines
import Ini.Shape.Read

/-!
# Lists read from one value

Items of a list stand in a value with line feeds and commas between them, and with blanks
around them. A line feed is a blank as well, so what stands between two items is a mixture
of blanks and commas that has a separator in it, and what stands before the first item and
behind the last is any such mixture. `Lists` says so of a text, without splitting it.

A text lists one list of items and no other, the one that the splitting gives
(`lists_iff`). Both directions rest on one equation: the items of a text are those before
a separator and those behind it (`items_append_cons`).
-/

namespace Ini

namespace Text

/-- A character that parts one item from the next. -/
def isSeparator (c : Char) : Bool := c = '\n' ∨ c = ','

/-- What may stand around items: blanks and commas. -/
def IsGap (text : Text) : Prop := ∀ c ∈ text, isBlank c = true ∨ c = ','

instance {text : Text} : Decidable (IsGap text) :=
  decidable_of_iff (text.all (fun c => isBlank c || c == ',') = true) (by simp [IsGap])

/-- What can be an item. -/
structure IsItem (item : Text) : Prop where
  ne_nil : item ≠ []
  trim_eq : item.trim = item
  not_separator : ∀ c ∈ item, isSeparator c = false

/-- The items stand in the text in this order, with gaps around them and a separator in
the gap between any two. -/
inductive Lists : List Text → Text → Prop
  | nil {gap : Text} (hgap : IsGap gap) : Lists [] gap
  | single {lead item trail : Text} (hlead : IsGap lead) (hitem : IsItem item)
      (htrail : IsGap trail) : Lists [item] (lead ++ (item ++ trail))
  | cons {lead item gap text : Text} {rest : List Text} (hlead : IsGap lead)
      (hitem : IsItem item) (hgap : IsGap gap) (hseparator : ∃ c ∈ gap, isSeparator c = true)
      (h : Lists rest text) : Lists (item :: rest) (lead ++ (item ++ (gap ++ text)))

/-- The items one after the other with a single separator between any two. -/
inductive Joined : List Text → Text → Prop
  | nil : Joined [] []
  | single (item : Text) : Joined [item] item
  | cons {item next text : Text} {rest : List Text} {c : Char} (hc : isSeparator c = true)
      (h : Joined (next :: rest) text) : Joined (item :: next :: rest) (item ++ c :: text)

variable {text front back gap item : Text} {listed : List Text} {c : Char}

/-! ## Splitting -/

theorem parts_eq_splitOnP (text : Text) : text.parts = List.splitOnP isSeparator text := by
  induction text with
  | nil => rfl
  | cons c rest ih =>
      obtain ⟨first, others, hsplit⟩ :=
        List.exists_cons_of_ne_nil (List.splitOnP_ne_nil isSeparator rest)
      rw [parts, ih, List.splitOnP_cons_eq_if_modifyHead, hsplit]
      simp only [isSeparator, decide_eq_true_eq]
      rfl

theorem items_append_cons (hc : isSeparator c = true) (front back : Text) :
    (front ++ c :: back).items = front.items ++ back.items := by
  simp only [items, parts_eq_splitOnP, List.splitOnP_append_cons front back hc, List.map_append,
    List.filter_append]

theorem items_of_not_separator (h : ∀ c ∈ text, isSeparator c = false) :
    text.items = if text.trim = [] then [] else [text.trim] := by
  rw [items, parts_eq_splitOnP, List.splitOnP_eq_singleton h]
  by_cases htrim : text.trim = []
  · simp [htrim]
  · simp [htrim]

/-! ## Gaps -/

theorem isGap_of_isBlank (h : ∀ c ∈ text, isBlank c = true) : IsGap text :=
  fun c hc => .inl (h c hc)

theorem isGap_of_isSeparator (hc : isSeparator c = true) : IsGap [c] := by
  intro b hb
  rw [List.mem_singleton.1 hb]
  rcases of_decide_eq_true hc with rfl | rfl
  · exact .inl (by decide)
  · exact .inr rfl

theorem IsGap.append (hfront : IsGap front) (hback : IsGap back) : IsGap (front ++ back) :=
  List.forall_mem_append.2 ⟨hfront, hback⟩

/-- The comma is the one character in a gap that is no blank. -/
theorem IsGap.isBlank (hgap : IsGap gap) (h : ∀ c ∈ gap, isSeparator c = false) :
    ∀ c ∈ gap, isBlank c = true := by
  intro c hc
  refine (hgap c hc).resolve_right fun hcomma => ?_
  have hseparator := h c hc
  rw [hcomma] at hseparator
  exact absurd hseparator (by decide)

theorem items_cons_of_isBlank (hc : isBlank c = true) (text : Text) :
    items (c :: text) = text.items := by
  by_cases hseparator : isSeparator c = true
  · exact items_append_cons hseparator [] text
  · obtain ⟨first, others, hsplit⟩ :=
      List.exists_cons_of_ne_nil (List.splitOnP_ne_nil isSeparator text)
    rw [items, items, parts_eq_splitOnP, parts_eq_splitOnP, List.splitOnP_cons_eq_if_modifyHead,
      if_neg hseparator, hsplit, List.modifyHead_cons, List.map_cons, List.map_cons,
      trim_cons_blank hc]

theorem items_gap_append (hgap : IsGap gap) (text : Text) : items (gap ++ text) = text.items := by
  induction gap with
  | nil => rfl
  | cons c gap ih =>
      obtain ⟨hc, hgap⟩ := List.forall_mem_cons.1 hgap
      rw [List.cons_append, ← ih hgap]
      rcases hc with hblank | rfl
      · exact items_cons_of_isBlank hblank _
      · exact items_append_cons (by decide) [] _

theorem items_of_isGap (hgap : IsGap gap) : gap.items = [] := by
  have h : items (gap ++ []) = [] := items_gap_append hgap []
  rwa [List.append_nil] at h

/-! ## Items between gaps -/

theorem items_item_append_blank (hitem : IsItem item) (hgap : IsGap gap)
    (h : ∀ c ∈ gap, isSeparator c = false) : items (item ++ gap) = [item] := by
  have hnone : ∀ c ∈ item ++ gap, isSeparator c = false :=
    List.forall_mem_append.2 ⟨hitem.not_separator, h⟩
  rw [items_of_not_separator hnone, trim_append_of_blank (hgap.isBlank h), hitem.trim_eq,
    if_neg hitem.ne_nil]

/-- Behind an item the others begin at the first separator. -/
theorem items_item_append (hitem : IsItem item) (hgap : IsGap gap)
    (hseparator : ∃ c ∈ gap, isSeparator c = true) (text : Text) :
    items (item ++ (gap ++ text)) = item :: text.items := by
  induction gap using separator_induction isSeparator with
  | part gap hnone =>
      obtain ⟨c, hmem, hc⟩ := hseparator
      rw [hnone c hmem] at hc
      cases hc
  | append pad c more hpad hc _ =>
      obtain ⟨hblank, hmore⟩ := List.forall_mem_append.1 hgap
      have hmore : IsGap more := (List.forall_mem_cons.1 hmore).2
      calc items (item ++ (pad ++ c :: more ++ text))
          = items ((item ++ pad) ++ c :: (more ++ text)) := by simp
        _ = items (item ++ pad) ++ items (more ++ text) := items_append_cons hc _ _
        _ = item :: text.items := by
            rw [items_item_append_blank hitem hblank hpad, items_gap_append hmore]
            rfl

theorem items_item_append_gap (hitem : IsItem item) (hgap : IsGap gap) :
    items (item ++ gap) = [item] := by
  by_cases hseparator : ∃ c ∈ gap, isSeparator c = true
  · have h := items_item_append hitem hgap hseparator []
    rwa [List.append_nil] at h
  · refine items_item_append_blank hitem hgap fun c hc => ?_
    exact Bool.eq_false_iff.2 fun htrue => hseparator ⟨c, hc, htrue⟩

theorem Lists.items_eq (h : Lists listed text) : text.items = listed := by
  induction h with
  | nil hgap => exact items_of_isGap hgap
  | single hlead hitem htrail => rw [items_gap_append hlead, items_item_append_gap hitem htrail]
  | cons hlead hitem hgap hseparator _ ih =>
      rw [items_gap_append hlead, items_item_append hitem hgap hseparator, ih]

/-! ## Every text is a list -/

theorem Lists.gap_append (hgap : IsGap gap) (h : Lists listed text) :
    Lists listed (gap ++ text) := by
  cases h with
  | nil hmore => exact .nil (hgap.append hmore)
  | single hlead hitem htrail =>
      rw [← List.append_assoc]
      exact .single (hgap.append hlead) hitem htrail
  | cons hlead hitem hgap' hseparator h =>
      rw [← List.append_assoc]
      exact .cons (hgap.append hlead) hitem hgap' hseparator h

/-- A text without a separator has an item in it unless it is blank. -/
theorem isGap_or_exists_isItem (h : ∀ c ∈ text, isSeparator c = false) :
    (text.items = [] ∧ IsGap text) ∨
      ∃ lead item trail, text = lead ++ (item ++ trail) ∧ text.items = [item] ∧
        IsGap lead ∧ IsItem item ∧ IsGap trail := by
  rw [items_of_not_separator h]
  by_cases htrim : text.trim = []
  · exact .inl ⟨if_pos htrim, isGap_of_isBlank (trim_eq_nil_iff.1 htrim)⟩
  · obtain ⟨lead, trail, htext, hlead, htrail⟩ := exists_eq_append_trim_append text
    have hitem : IsItem text.trim :=
      ⟨htrim, trim_trim text, fun c hc => h c (mem_of_mem_trim hc)⟩
    refine .inr ⟨lead, text.trim, trail, ?_, if_neg htrim, isGap_of_isBlank hlead, hitem,
      isGap_of_isBlank htrail⟩
    rw [← List.append_assoc, ← htext]

theorem lists_items (text : Text) : Lists text.items text := by
  induction text using separator_induction isSeparator with
  | part text h =>
      rcases isGap_or_exists_isItem h with ⟨hitems, hgap⟩ |
        ⟨lead, item, trail, htext, hitems, hlead, hitem, htrail⟩
      · rw [hitems]
        exact .nil hgap
      · rw [hitems, htext]
        exact .single hlead hitem htrail
  | append front c back hfront hc hback =>
      have hseparator : IsGap [c] := isGap_of_isSeparator hc
      rw [items_append_cons hc, ← List.singleton_append]
      rcases isGap_or_exists_isItem hfront with ⟨hitems, hgap⟩ |
        ⟨lead, item, trail, rfl, hitems, hlead, hitem, htrail⟩
      · rw [hitems, ← List.append_assoc]
        exact hback.gap_append (hgap.append hseparator)
      · have hlists := Lists.cons hlead hitem (htrail.append hseparator) ⟨c, by simp, hc⟩ hback
        rw [hitems]
        simpa using hlists

/-- A text lists the items that the splitting gives, and nothing else. -/
theorem lists_iff : Lists listed text ↔ text.items = listed := by
  constructor
  · exact Lists.items_eq
  · rintro rfl
    exact lists_items text

theorem Lists.isItem (h : Lists listed text) : ∀ item ∈ listed, IsItem item := by
  induction h with
  | nil _ => exact List.forall_mem_nil _
  | single _ hitem _ => exact List.forall_mem_singleton.2 hitem
  | cons _ hitem _ _ _ ih => exact List.forall_mem_cons.2 ⟨hitem, ih⟩

theorem Joined.lists (h : Joined listed text) (hlisted : ∀ item ∈ listed, IsItem item) :
    Lists listed text := by
  have hnil : IsGap [] := List.forall_mem_nil _
  induction h with
  | nil => exact .nil hnil
  | single item =>
      have hlists : Lists [item] ([] ++ (item ++ [])) :=
        .single hnil (List.forall_mem_singleton.1 hlisted) hnil
      simpa using hlists
  | @cons item next text rest c hc _ ih =>
      obtain ⟨hitem, hrest⟩ := List.forall_mem_cons.1 hlisted
      have hlists : Lists (item :: next :: rest) ([] ++ (item ++ ([c] ++ text))) :=
        .cons hnil hitem (isGap_of_isSeparator hc) ⟨c, List.mem_singleton_self c, hc⟩ (ih hrest)
      exact hlists

end Text

/-! ## Reading -/

/-- Where a list is asked for, the value gives these items, one after the other and in
this order, each as if it were a value of its own; and it says how many are left before
each item and at the end. -/
structure Presents (value : Option Text) (items : List Text) : Prop where
  list (inner : Shape) : (Shape.list inner).read value =
    (Shape.readAll (fun item => inner.read (some item)) items).map Value.list
  countdown : Shape.countdown.read value = .ok (.counts (Shape.countdownFrom items.length))

namespace Shape

variable {value : Option Text} {listed : List Text}

theorem presents_items (value : Option Text) : Presents value (value.getD []).items := by
  refine ⟨fun inner => ?_, ?_⟩
  · rw [read]
    cases readAll (fun item => inner.read (some item)) (value.getD []).items <;> rfl
  · rw [read]

theorem readAll_text (listed : List Text) :
    readAll (fun item => (scalar .text).read (some item)) listed =
      .ok (listed.map fun item => .atom (.text item)) := by
  induction listed with
  | nil => rfl
  | cons item rest ih =>
      rw [readAll, ih]
      rfl

/-- What a list of texts is read as tells the items. -/
theorem presents_iff : Presents value listed ↔ (value.getD []).items = listed := by
  constructor
  · intro h
    have htexts := (presents_items value).list (scalar .text)
    rw [h.list, readAll_text, readAll_text] at htexts
    have hmap : listed.map (fun item => Value.atom (.text item)) =
        (value.getD []).items.map fun item => .atom (.text item) :=
      Value.list.inj (Except.ok.inj htexts)
    refine (List.map_injective_iff.2 (fun item other heq => ?_) hmap).symm
    exact Atom.text.inj (Value.atom.inj heq)
  · rintro rfl
    exact presents_items value

/-- A value presents just the items that its text lists. Whatever the text is, they are
items, and joined again with single separators they are presented again. -/
theorem presents_iff_lists (value : Option Text) :
    (∀ items, Presents value items ↔ Text.Lists items (value.getD [])) ∧
      ∃ items, Presents value items ∧ (∀ item ∈ items, Text.IsItem item) ∧
        ∀ text, Text.Joined items text → Presents (some text) items := by
  refine ⟨fun items => ?_, (value.getD []).items, presents_items value, ?_, fun text h => ?_⟩
  · rw [presents_iff, Text.lists_iff]
  · exact (Text.lists_items _).isItem
  · exact presents_iff.2 (h.lists (Text.lists_items _).isItem).items_eq

/-- Two items between blank lines, doubled commas and a no-break space. -/
def scattered : Text := "\n ,a b ,\t,\n c\u00a0".toList

theorem presents_iff_lists_scattered :
    Text.Lists ["a b".toList, "c".toList] scattered ∧
      Presents (some scattered) ["a b".toList, "c".toList] ∧
      Presents (some "a b,c".toList) ["a b".toList, "c".toList] ∧
      (Shape.list (.scalar .text)).read (some "a b\nc".toList) =
        .ok (.list [.atom (.text "a b".toList), .atom (.text "c".toList)]) := by
  have hab : Text.IsItem "a b".toList := ⟨by decide, by decide, by simp [Text.isSeparator]⟩
  have hc : Text.IsItem "c".toList := ⟨by decide, by decide, by simp [Text.isSeparator]⟩
  have hlists : Text.Lists ["a b".toList, "c".toList]
      ("\n ,".toList ++ ("a b".toList ++ (" ,\t,\n".toList ++
        (" ".toList ++ ("c".toList ++ "\u00a0".toList))))) :=
    .cons (by decide) hab (by decide) ⟨',', by decide, by decide⟩
      (.single (by decide) hc (by decide))
  obtain ⟨hpresents, items, hitems, -, hjoined⟩ := presents_iff_lists (some scattered)
  have hscattered : Presents (some scattered) ["a b".toList, "c".toList] :=
    (hpresents _).2 hlists
  obtain rfl : items = ["a b".toList, "c".toList] :=
    (presents_iff.1 hitems).symm.trans (presents_iff.1 hscattered)
  refine ⟨hlists, hscattered, hjoined _ ?_, ?_⟩
  · exact .cons (by decide) (.single "c".toList)
  · exact (hjoined _ (.cons (by decide) (.single "c".toList))).list (.scalar .text)

end Shape

end Ini
