import Ini.Proofs.Joined

/-!
# What stands under a header

Under a header a reader stands in one section until the next one. All it stores goes
to that section, the rest of a value that is still open included, for the section of
an open value is the one it was met in. This has two sides. No other section changes
(`StandsIn.agreeOn_feed`). And no other section matters: a reader on a store that
agrees with this one on the section takes the same steps and comes to the same faults
(`StandsIn.abreast_feed`).
-/

namespace Ini

namespace Store

variable {s t u : Store} {name other : Text}

/-- Two stores hold the same under a name, the defaults included if the name
addresses them. -/
structure AgreeOn (name : Text) (s t : Store) : Prop where
  defaultName : s.defaultName = t.defaultName
  defaults : name = s.defaultName → s.defaults = t.defaults
  sections : s.sections.find? name = t.sections.find? name

namespace AgreeOn

theorem refl (name : Text) (s : Store) : AgreeOn name s s := ⟨rfl, fun _ => rfl, rfl⟩

theorem symm (h : AgreeOn name s t) : AgreeOn name t s :=
  ⟨h.defaultName.symm, fun hname => (h.defaults (hname.trans h.defaultName.symm)).symm,
    h.sections.symm⟩

theorem trans (h : AgreeOn name s t) (h' : AgreeOn name t u) : AgreeOn name s u :=
  ⟨h.defaultName.trans h'.defaultName,
    fun hname => (h.defaults hname).trans (h'.defaults (hname.trans h.defaultName)),
    h.sections.trans h'.sections⟩

theorem entries?_eq (h : AgreeOn name s t) : s.entries? name = t.entries? name := by
  unfold entries?
  rw [← h.defaultName, ← h.sections]
  split
  · next hname => rw [h.defaults hname]
  · rfl

theorem hasSection_eq (h : AgreeOn name s t) : s.hasSection name = t.hasSection name := by
  rw [hasSection, hasSection, Table.contains, Table.contains, h.sections]

/-- Both stores are changed alike. -/
theorem adjust (h : AgreeOn name s t) (f : Entries → Entries) :
    AgreeOn name (s.adjust name f) (t.adjust name f) := by
  unfold Store.adjust
  rw [← h.defaultName]
  split
  · next hname =>
      exact ⟨rfl, fun _ => congrArg f (h.defaults hname), h.sections⟩
  · next hname =>
      refine ⟨rfl, fun hdefault => absurd hdefault hname, ?_⟩
      simp only [Table.find?_adjust, h.sections]

theorem insertSection (h : AgreeOn name s t) :
    AgreeOn name (s.insertSection name) (t.insertSection name) := by
  unfold Store.insertSection
  rw [← h.hasSection_eq]
  split
  · exact h
  · refine ⟨h.defaultName, h.defaults, ?_⟩
    simp only [Table.find?_put, if_true]

/-- One store is changed under another name. -/
theorem adjust_of_ne (h : AgreeOn name s t) (hne : name ≠ other) (f : Entries → Entries) :
    AgreeOn name s (t.adjust other f) := by
  unfold Store.adjust
  split
  · next hother =>
      refine ⟨h.defaultName, fun hname => ?_, h.sections⟩
      exact absurd ((hname.trans h.defaultName).trans hother.symm) hne
  · refine ⟨h.defaultName, h.defaults, ?_⟩
    rw [Table.find?_adjust, if_neg hne.symm]
    exact h.sections

theorem insertSection_of_ne (h : AgreeOn name s t) (hne : name ≠ other) :
    AgreeOn name s (t.insertSection other) := by
  unfold Store.insertSection
  split
  · exact h
  · refine ⟨h.defaultName, h.defaults, ?_⟩
    rw [Table.find?_put, if_neg hne.symm]
    exact h.sections

end AgreeOn

end Store

namespace Reader

variable {d : Dialect} {source raw name other : Text} {place : Position} {statement : Statement}
  {r q : Reader} {result : Reader × Except Fault Unit} {s t : Store} {lines : List Text}

/-- Entries go to a section, and so does the value that may still grow. -/
structure StandsIn (name : Text) (r : Reader) : Prop where
  current : r.current = some name
  pending : ∀ p ∈ r.pending, p.name = name

namespace StandsIn

theorem of_pending (hcurrent : r.current = some name) (hpending : r.pending = none) :
    r.StandsIn name :=
  ⟨hcurrent, by simp [hpending]⟩

theorem flush (h : r.StandsIn name) : r.flush.StandsIn name :=
  of_pending ((current_flush r).trans h.current) (pending_flush r)

theorem located (h : r.StandsIn name) {home : Text} (hq : Located d r home q) :
    home = name ∧ q = r := by
  cases hq with
  | here hcurrent => exact ⟨Option.some.inj (hcurrent.symm.trans h.current), rfl⟩
  | made hcurrent =>
      rw [h.current] at hcurrent
      cases hcurrent

end StandsIn

/-! ## The section stays -/

theorem Started.standsIn (h : Started d place raw r statement result)
    (hs : statement.isHeader = false) (hr : r.StandsIn name) : result.1.StandsIn name := by
  cases h with
  | nameless | defaults | opened | repeated => cases hs
  | homeless => exact hr
  | @assigned home key value q content hq =>
      obtain ⟨rfl, rfl⟩ := hr.located hq
      refine ⟨hr.current, fun p hp => ?_⟩
      obtain ⟨first, -, rfl⟩ := Option.map_eq_some_iff.1 hp
      rfl
  | duplicate hq | lost hq | malformed hq =>
      obtain ⟨rfl, rfl⟩ := hr.located hq
      exact ⟨hr.current, hr.pending⟩

theorem StandsIn.feed (h : r.StandsIn name)
    (hline : (Statement.ofCleaned d (Line.clean d raw)).isHeader = false) (place : Position) :
    (r.feed d place raw).1.StandsIn name := by
  have hfed := fed d place raw r
  generalize r.feed d place raw = result at hfed ⊢
  cases hfed with
  | idle => exact h
  | @gap p hclean hp =>
      split
      · exact ⟨h.current, by simpa [Pending.push] using h.pending p hp⟩
      · exact .of_pending h.current rfl
  | @row p hclean hraw hp => exact ⟨h.current, by simpa [Pending.push] using h.pending p hp⟩
  | started hclean hraw hstarted => exact hstarted.standsIn hline h.flush

theorem StandsIn.feedAll (h : r.StandsIn name)
    (hlines : ∀ raw ∈ lines, (Statement.ofCleaned d (Line.clean d raw)).isHeader = false)
    {number : Nat} : (r.feedAll d source number lines).1.StandsIn name :=
  feedAll_keeps_of_mem source (fun raw hraw place _ hr => hr.feed (hlines raw hraw) place) number h

/-! ## No other section changes -/

theorem StandsIn.agreeOn_flush (h : r.StandsIn name) (hne : other ≠ name) :
    r.store.AgreeOn other r.flush.store := by
  unfold Reader.flush
  split
  · exact .refl other r.store
  · next p hp =>
      refine Store.AgreeOn.adjust_of_ne (.refl other r.store) ?_ _
      rw [h.pending p hp]
      exact hne

theorem Started.agreeOn (h : Started d place raw r statement result)
    (hs : statement.isHeader = false) (hr : r.StandsIn name) (hne : other ≠ name) :
    r.store.AgreeOn other result.1.store := by
  cases h with
  | nameless | defaults | opened | repeated => cases hs
  | homeless => exact .refl other r.store
  | assigned hq =>
      obtain ⟨rfl, rfl⟩ := hr.located hq
      exact Store.AgreeOn.adjust_of_ne (.refl other _) hne _
  | duplicate hq | lost hq | malformed hq =>
      obtain ⟨rfl, rfl⟩ := hr.located hq
      exact .refl other _

theorem StandsIn.agreeOn_feed (h : r.StandsIn name)
    (hline : (Statement.ofCleaned d (Line.clean d raw)).isHeader = false) (hne : other ≠ name)
    (place : Position) : r.store.AgreeOn other (r.feed d place raw).1.store := by
  have hfed := fed d place raw r
  generalize r.feed d place raw = result at hfed ⊢
  cases hfed with
  | idle | gap | row => exact .refl other r.store
  | started hclean hraw hstarted =>
      exact (h.agreeOn_flush hne).trans (hstarted.agreeOn hline h.flush hne)

theorem StandsIn.agreeOn_feedAll (h : r.StandsIn name)
    (hlines : ∀ raw ∈ lines, (Statement.ofCleaned d (Line.clean d raw)).isHeader = false)
    (hne : other ≠ name) {number : Nat} :
    r.store.AgreeOn other (r.feedAll d source number lines).1.store := by
  have hkept := feedAll_keeps_of_mem
    (P := fun q => q.StandsIn name ∧ r.store.AgreeOn other q.store) source
    (fun raw hraw place q hq =>
      ⟨hq.1.feed (hlines raw hraw) place,
        hq.2.trans (hq.1.agreeOn_feed (hlines raw hraw) hne place)⟩)
    number ⟨h, .refl other r.store⟩
  exact hkept.2

/-! ## No other section matters -/

/-- The reader with another store. -/
def onto (t : Store) (r : Reader) : Reader := { r with store := t }

/-- The results of two readers that differ at most in what they hold of other sections. -/
def Abreast (name : Text) (result other : Reader × Except Fault Unit) : Prop :=
  ∃ u, other = (result.1.onto u, result.2) ∧ result.1.store.AgreeOn name u

theorem StandsIn.exists_flush (h : r.StandsIn name) (ht : r.store.AgreeOn name t) :
    ∃ u, (r.onto t).flush = r.flush.onto u ∧ r.flush.store.AgreeOn name u := by
  obtain ⟨store, current, pending, malformed⟩ := r
  cases pending with
  | none => exact ⟨t, rfl, ht⟩
  | some p =>
      obtain rfl : p.name = name := h.pending p rfl
      exact ⟨t.adjust p.name (·.adjust p.key fun _ => some p.value), rfl, ht.adjust _⟩

theorem abreast_assign (ht : r.store.AgreeOn name t) (place : Position) (key : Text)
    (value : Option Text) :
    Abreast name (r.assign d place name key value) ((r.onto t).assign d place name key value) := by
  have hentries : (r.onto t).store.entries? name = r.store.entries? name := ht.entries?_eq.symm
  unfold assign
  rw [hentries]
  split
  · exact ⟨t, rfl, ht⟩
  · split
    · exact ⟨t, rfl, ht⟩
    · exact ⟨t.put name key value, rfl, ht.adjust _⟩

theorem StandsIn.abreast_start (h : r.StandsIn name) (ht : r.store.AgreeOn name t)
    (hs : statement.isHeader = false) (place : Position) (raw : Text) :
    Abreast name (r.start d place raw statement) ((r.onto t).start d place raw statement) := by
  have hr : r.locate d = some (name, r) := by simp [locate, h.current]
  have hq : (r.onto t).locate d = some (name, r.onto t) := by simp [locate, onto, h.current]
  unfold start
  cases statement with
  | header => cases hs
  | entry key value =>
      rw [hr, hq]
      exact abreast_assign ht place key value
  | malformed =>
      rw [hr, hq]
      exact ⟨t, rfl, ht⟩

theorem StandsIn.abreast_feed (h : r.StandsIn name) (ht : r.store.AgreeOn name t)
    (hline : (Statement.ofCleaned d (Line.clean d raw)).isHeader = false) (place : Position) :
    Abreast name (r.feed d place raw) ((r.onto t).feed d place raw) := by
  have hpending : (r.onto t).pending = r.pending := rfl
  obtain ⟨u, hflush, hu⟩ := h.exists_flush ht
  unfold Reader.feed
  rw [hpending, hflush]
  dsimp only
  split
  · split
    · exact ⟨t, rfl, ht⟩
    · exact h.abreast_start ht hline place raw
  · split
    · exact ⟨t, rfl, ht⟩
    · split
      · exact ⟨t, rfl, ht⟩
      · exact h.flush.abreast_start hu hline place raw

theorem StandsIn.abreast_feedAll (h : r.StandsIn name)
    (hlines : ∀ raw ∈ lines, (Statement.ofCleaned d (Line.clean d raw)).isHeader = false)
    (ht : r.store.AgreeOn name t) {number : Nat} :
    Abreast name (r.feedAll d source number lines) ((r.onto t).feedAll d source number lines) := by
  induction lines generalizing number r t with
  | nil => exact ⟨t, rfl, ht⟩
  | cons raw rest ih =>
      obtain ⟨hraw, hrest⟩ := List.forall_mem_cons.1 hlines
      obtain ⟨u, hfeed, hu⟩ := h.abreast_feed ht hraw ⟨source, number⟩
      have hnext := h.feed hraw ⟨source, number⟩
      rw [Reader.feedAll, Reader.feedAll, hfeed]
      generalize r.feed d ⟨source, number⟩ raw = result at hu hnext
      obtain ⟨q, outcome⟩ := result
      cases outcome with
      | ok => exact ih hnext hrest hu
      | error fault => exact ⟨u, rfl, hu⟩

/-! ## The header and the end -/

theorem Started.standsIn_of_header (h : Started d place raw r (.header name) (q, .ok ()))
    (hname : name ≠ []) (hr : r.pending = none) : q.StandsIn name := by
  cases h with
  | nameless => exact absurd rfl hname
  | defaults | opened => exact .of_pending rfl hr

theorem Started.agreeOn_of_header (h : Started d place raw r (.header name) result)
    (hne : other ≠ name) : r.store.AgreeOn other result.1.store := by
  cases h with
  | nameless | defaults | repeated => exact .refl other r.store
  | opened => exact Store.AgreeOn.insertSection_of_ne (.refl other r.store) hne
  | homeless hs => exact absurd rfl (hs name)

theorem abreast_enter (ht : r.store.AgreeOn name t) (place : Position) (raw : Text) :
    Abreast name (r.enter d place raw name) ((r.onto t).enter d place raw name) := by
  have hhas : (r.onto t).store.hasSection name = r.store.hasSection name := ht.hasSection_eq.symm
  unfold enter
  rw [hhas]
  split
  · exact ⟨t, rfl, ht⟩
  · split
    · exact ⟨t, rfl, ht⟩
    · split
      · exact ⟨t, rfl, ht⟩
      · exact ⟨t.insertSection name, rfl, ht.insertSection⟩

theorem StandsIn.agreeOn_conclude {outcome : Except Fault Unit} (h : r.StandsIn name)
    (hs : s.AgreeOn other r.store) (hne : other ≠ name) :
    s.AgreeOn other (conclude source (r, outcome)).1 := by
  cases outcome with
  | ok => exact hs.trans (h.agreeOn_flush hne)
  | error => exact hs

theorem StandsIn.conclude_of_abreast {result' : Reader × Except Fault Unit}
    (h : result.1.StandsIn name) (habreast : Abreast name result result') :
    (conclude source result).2 = (conclude source result').2 ∧
      (conclude source result).1.AgreeOn name (conclude source result').1 := by
  obtain ⟨q, outcome⟩ := result
  obtain ⟨u, rfl, hu⟩ := habreast
  cases outcome with
  | ok =>
      obtain ⟨v, hflush, hv⟩ := h.exists_flush hu
      obtain rfl : (q.onto u).flush.store = v := congrArg Reader.store hflush
      exact ⟨rfl, hv⟩
  | error => exact ⟨rfl, hu⟩

end Reader

end Ini
