import Ini.Config.Basic
import Ini.Proofs.Step

/-!
# A reading only adds

What a configuration holds stays where it is when a text is read into it. New
sections stand behind the old ones, new keys behind the old keys of a section,
and under a strict dialect no old entry has another value than before. A reading
that fails is no exception.

The order is a matter of how tables grow. The values are not, for a value is
stored twice: at its first line, and once more when it ends. Whether the second
time can touch an entry that was there before depends on which entries the
reading made itself. `Reader.Added` keeps track of that: under a strict dialect
the key of an open value is none that its section had at the start.
-/

namespace Ini

namespace Table

variable {α β : Type} [DecidableEq α]

theorem keys_isPrefix_put (table : Table α β) (key : α) (value : β) :
    table.keys <+: (table.put key value).keys := by
  rw [keys_put]
  split
  · exact List.prefix_refl _
  · exact List.prefix_append _ _

theorem adjust_append_of_not_mem {front : Table α β} {key : α} (h : key ∉ front.keys)
    (back : Table α β) (f : β → β) :
    Table.adjust (front ++ back) key f = front ++ back.adjust key f := by
  induction front with
  | nil => rfl
  | cons pair rest ih =>
      obtain ⟨k, value⟩ := pair
      have hk : key ≠ k := fun e => h (e ▸ List.mem_cons_self)
      have hrest : key ∉ keys rest := fun hmem => h (List.mem_cons_of_mem _ hmem)
      rw [List.cons_append, adjust, if_neg (Ne.symm hk), ih hrest]
      rfl

end Table

/-- Entries that have stayed while others came behind them. Their values may have
changed unless the dialect is strict. -/
structure Entries.Grown (strict : Bool) (before after : Entries) : Prop where
  keys : before.keys <+: after.keys
  entries : strict = true → before <+: after

/-- A store whose sections and entries have stayed while others came behind them. -/
structure Store.Grown (strict : Bool) (s t : Store) : Prop where
  defaultName : t.defaultName = s.defaultName
  names : s.sectionNames <+: t.sectionNames
  defaults : Entries.Grown strict s.defaults t.defaults
  sections : ∀ name before, s.sections.find? name = some before →
    ∃ after, t.sections.find? name = some after ∧ Entries.Grown strict before after

namespace Entries.Grown

variable {strict : Bool} {before after : Entries} {key : Text}

theorem refl (strict : Bool) (entries : Entries) : Grown strict entries entries :=
  ⟨List.prefix_refl _, fun _ => List.prefix_refl _⟩

theorem put (h : Grown strict before after) (hnew : ¬(after.contains key = true ∧ strict = true))
    (value : Option Text) : Grown strict before (after.put key value) := by
  refine ⟨h.keys.trans (Table.keys_isPrefix_put after key value), fun hstrict => ?_⟩
  have hkey : key ∉ after.keys := fun hmem => hnew ⟨Table.contains_iff_mem_keys.2 hmem, hstrict⟩
  rw [Table.put_of_not_mem hkey]
  exact (h.entries hstrict).trans (List.prefix_append _ _)

theorem adjust (h : Grown strict before after) (hkey : strict = true → key ∉ before.keys)
    (f : Option Text → Option Text) : Grown strict before (after.adjust key f) := by
  refine ⟨?_, fun hstrict => ?_⟩
  · rw [Table.keys_adjust]
    exact h.keys
  · obtain ⟨back, rfl⟩ := h.entries hstrict
    rw [Table.adjust_append_of_not_mem (hkey hstrict)]
    exact List.prefix_append _ _

end Entries.Grown

namespace Store.Grown

variable {strict : Bool} {s t : Store} {name : Text} {before : Entries}

theorem refl (strict : Bool) (s : Store) : s.Grown strict s :=
  ⟨rfl, List.prefix_refl _, .refl strict _, fun _ before h => ⟨before, h, .refl strict before⟩⟩

theorem entries? (h : s.Grown strict t) (hbefore : s.entries? name = some before) :
    ∃ after, t.entries? name = some after ∧ Entries.Grown strict before after := by
  unfold Store.entries? at hbefore ⊢
  rw [h.defaultName]
  split at hbefore
  · next hname =>
      cases hbefore
      exact ⟨t.defaults, if_pos hname, h.defaults⟩
  · next hname =>
      rw [if_neg hname]
      exact h.sections name before hbefore

theorem adjust (h : s.Grown strict t) {f : Entries → Entries}
    (hf : ∀ before after, s.entries? name = some before → t.entries? name = some after →
      Entries.Grown strict before after → Entries.Grown strict before (f after)) :
    s.Grown strict (t.adjust name f) := by
  have hnames : s.sectionNames <+: (t.adjust name f).sectionNames := by
    rw [sectionNames_adjust]
    exact h.names
  by_cases hdefault : name = t.defaultName
  · have hs : s.entries? name = some s.defaults := if_pos (hdefault.trans h.defaultName)
    rw [Store.adjust, if_pos hdefault]
    exact ⟨h.defaultName, h.names, hf _ _ hs (if_pos hdefault) h.defaults, h.sections⟩
  · have hs : name ≠ s.defaultName := h.defaultName ▸ hdefault
    refine ⟨?_, hnames, ?_, ?_⟩
    · rw [defaultName_adjust]
      exact h.defaultName
    · rw [Store.adjust, if_neg hdefault]
      exact h.defaults
    · intro other before hbefore
      obtain ⟨after, hafter, hgrown⟩ := h.sections other before hbefore
      rw [Store.adjust, if_neg hdefault, Table.find?_adjust, hafter]
      split
      · next hother =>
          subst hother
          have hold : s.entries? name = some before := (if_neg hs).trans hbefore
          have hnow : t.entries? name = some after := (if_neg hdefault).trans hafter
          exact ⟨f after, rfl, hf before after hold hnow hgrown⟩
      · exact ⟨after, rfl, hgrown⟩

theorem insertSection (h : s.Grown strict t) (name : Text) :
    s.Grown strict (t.insertSection name) := by
  by_cases hname : name ∈ t.sectionNames
  · have hhas : t.hasSection name = true := Table.contains_iff_mem_keys.2 hname
    rwa [Store.insertSection, if_pos hhas]
  · rw [insertSection_of_not_mem hname, ← Table.put_of_not_mem hname]
    refine ⟨h.defaultName, h.names.trans (Table.keys_isPrefix_put ..), h.defaults, ?_⟩
    intro other before hbefore
    obtain ⟨after, hafter, hgrown⟩ := h.sections other before hbefore
    refine ⟨after, ?_, hgrown⟩
    rw [Table.find?_put, if_neg, hafter]
    rintro rfl
    exact hname (List.mem_map_of_mem (Table.mem_of_find?_eq_some hafter))

end Store.Grown

/-! ## Readings -/

namespace Reader

variable {d : Dialect} {source raw name : Text} {place : Position} {statement : Statement}
  {r q : Reader} {result : Reader × Except Fault Unit} {s : Store}

/-- What holds of a reader on the way from the store `s`. -/
structure Added (d : Dialect) (s : Store) (r : Reader) : Prop where
  grown : s.Grown d.strict r.store
  /-- The entry of an open value is new. -/
  fresh : d.strict = true → ∀ p ∈ r.pending, ∀ before, s.entries? p.name = some before →
    p.key ∉ before.keys

theorem Added.of_grown (h : s.Grown d.strict r.store) (hr : r.pending = none) : r.Added d s :=
  ⟨h, by simp [hr]⟩

theorem Added.push (h : r.Added d s) {p : Pending} (hp : r.pending = some p) (row : Text) :
    Added d s { r with pending := some (p.push row) } := by
  refine ⟨h.grown, fun hstrict p' hp' => ?_⟩
  cases hp'
  exact h.fresh hstrict p hp

theorem Added.flush (h : r.Added d s) : r.flush.Added d s := by
  refine .of_grown ?_ (pending_flush r)
  unfold Reader.flush
  split
  · exact h.grown
  · next p hp =>
      refine h.grown.adjust fun before after hbefore _ hgrown => hgrown.adjust ?_ _
      exact fun hstrict => h.fresh hstrict p hp before hbefore

theorem Located.grown (h : Located d r name q) (hr : s.Grown d.strict r.store) :
    s.Grown d.strict q.store := by
  cases h with
  | here => exact hr
  | made => exact hr.insertSection unnamedSection

theorem Started.added (h : Started d place raw r statement result)
    (hr : s.Grown d.strict r.store) (hpending : r.pending = none) : result.1.Added d s := by
  cases h with
  | nameless | defaults | repeated | homeless => exact .of_grown hr hpending
  | opened => exact .of_grown (hr.insertSection _) hpending
  | @assigned name key value q content hq hcontent hnew =>
      have hgrown := hq.grown hr
      refine ⟨hgrown.adjust fun before after _ hafter h => ?_, fun hstrict p hp before hbefore => ?_⟩
      · rw [hcontent] at hafter
        cases hafter
        exact h.put hnew value
      · obtain ⟨first, -, rfl⟩ := Option.map_eq_some_iff.1 hp
        obtain ⟨after, hafter, h⟩ := hgrown.entries? hbefore
        rw [hcontent] at hafter
        cases hafter
        exact fun hmem =>
          hnew ⟨Table.contains_iff_mem_keys.2 (h.keys.subset hmem), hstrict⟩
  | duplicate hq | lost hq | malformed hq =>
      exact .of_grown (hq.grown hr) (hq.pending_eq.trans hpending)

theorem Fed.added (h : Fed d place raw r result) (hr : r.Added d s) : result.1.Added d s := by
  cases h with
  | idle => exact hr
  | gap hclean hp =>
      split
      · exact hr.push hp []
      · exact .of_grown hr.grown rfl
  | row hclean hraw hp => exact hr.push hp _
  | started hclean hraw hstarted => exact hstarted.added hr.flush.grown (pending_flush r)

theorem grown_conclude (h : result.1.Added d s) :
    s.Grown d.strict (conclude source result).1 := by
  obtain ⟨q, outcome⟩ := result
  cases outcome with
  | ok => exact h.flush.grown
  | error => exact h.grown

end Reader

/-- Reading a text into a configuration, whatever its outcome, leaves the sections
and the keys that were there in their places and adds others behind them. Under a
strict dialect the values stay as well. -/
theorem Config.grown_read (c : Config) (source text : Text) :
    c.store.Grown c.dialect.strict (c.read source text).1.store := by
  have hstart : Reader.Added c.dialect c.store { store := c.store } :=
    .of_grown (.refl _ c.store) rfl
  have hall := Reader.feedAll_keeps (P := fun q => q.Added c.dialect c.store)
    (fun place raw q hq => (Reader.fed c.dialect place raw q).added hq) source text.lines 1 hstart
  have hread : (c.read source text).1.store = (c.store.read c.dialect source text).1 := rfl
  rw [hread, Store.read_eq_readLines, Store.readLines_eq_conclude]
  exact Reader.grown_conclude hall

end Ini
