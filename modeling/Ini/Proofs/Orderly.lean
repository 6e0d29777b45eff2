import Ini.Config.Edit
import Ini.Proofs.Step

/-!
# What every edit keeps

No name and no key stands twice in a configuration, no section is without a
name, and every key is folded, so that looking up a folded key finds it in
whatever case it was written. None of this is built into a store. It holds
because every function that changes a configuration keeps it, a reading that
breaks off anywhere included.

`Store.Orderly` collects these facts. A reading keeps them line by line: what a
line stores are keys that were folded when the line was understood, and sections
that a header with a name opens. The one section made without a header is the
unnamed one. So a section can bear the name of the defaults only where the
defaults are called by the reserved name.
-/

namespace Ini

/-- The key that a line states is folded. -/
theorem Statement.fold_of_ofCleaned {d : Dialect} {row key : Text} {value : Option Text}
    (h : ofCleaned d row = .entry key value) : key.fold = key := by
  rw [key_of_ofCleaned h, Text.fold_fold]

namespace Store

/-- The entries of the defaults and of every section. -/
def tables (s : Store) : List Entries := s.defaults :: s.sections.map Prod.snd

/-- What holds of every store that edits under a dialect lead to. -/
structure Orderly (d : Dialect) (s : Store) : Prop where
  defaultName : s.defaultName = d.defaultSection
  wellFormed : s.WellFormed
  /-- Every section has a name, and one of its own unless that is the reserved one. -/
  named : ∀ name ∈ s.sectionNames, name ≠ [] ∧ (name = d.defaultSection → name = unnamedSection)
  folded : ∀ content ∈ s.tables, ∀ key ∈ content.keys, key.fold = key

variable {d : Dialect} {s : Store} {name key : Text} {content : Entries}

theorem mem_tables_adjust {f : Entries → Entries} (h : content ∈ (s.adjust name f).tables) :
    content ∈ s.tables ∨ ∃ old ∈ s.tables, content = f old := by
  unfold adjust at h
  split at h
  · rcases List.mem_cons.1 h with rfl | hmem
    · exact .inr ⟨s.defaults, List.mem_cons_self, rfl⟩
    · exact .inl (List.mem_cons_of_mem _ hmem)
  · rcases List.mem_cons.1 h with rfl | hmem
    · exact .inl List.mem_cons_self
    · obtain ⟨pair, hpair, rfl⟩ := List.mem_map.1 hmem
      rcases Table.mem_adjust hpair with hold | ⟨old, hold, rfl⟩
      · exact .inl (List.mem_cons_of_mem _ (List.mem_map_of_mem hold))
      · exact .inr ⟨old, List.mem_cons_of_mem _ (List.mem_map_of_mem hold), rfl⟩

theorem mem_tables_insertSection (h : content ∈ (s.insertSection name).tables) :
    content ∈ s.tables ∨ content = [] := by
  unfold insertSection at h
  split at h
  · exact .inl h
  · rcases List.mem_cons.1 h with rfl | hmem
    · exact .inl List.mem_cons_self
    · obtain ⟨pair, hpair, rfl⟩ := List.mem_map.1 hmem
      rcases Table.mem_put hpair with rfl | hold
      · exact .inr rfl
      · exact .inl (List.mem_cons_of_mem _ (List.mem_map_of_mem hold))

theorem orderly_empty (d : Dialect) : Orderly d { defaultName := d.defaultSection } :=
  ⟨rfl, wellFormed_empty _, by simp [sectionNames, Table.keys], by simp [tables, Table.keys]⟩

namespace Orderly

/-- A change to the entries of one section, if it makes no key twice or unfolded. -/
theorem adjust (h : s.Orderly d) (name : Text) {f : Entries → Entries}
    (hdistinct : ∀ entries : Entries, entries.Distinct → (f entries).Distinct)
    (hkeys : ∀ entries : Entries, ∀ key ∈ (f entries).keys, key ∈ entries.keys ∨ key.fold = key) :
    (s.adjust name f).Orderly d := by
  refine ⟨?_, h.wellFormed.adjust name hdistinct, ?_, ?_⟩
  · rw [defaultName_adjust]
    exact h.defaultName
  · rw [sectionNames_adjust]
    exact h.named
  · intro content hcontent key hkey
    rcases mem_tables_adjust hcontent with hold | ⟨old, hold, rfl⟩
    · exact h.folded content hold key hkey
    · rcases hkeys old key hkey with hmem | hfold
      · exact h.folded old hold key hmem
      · exact hfold

theorem put (h : s.Orderly d) (name : Text) (hkey : key.fold = key) (value : Option Text) :
    (s.put name key value).Orderly d := by
  refine h.adjust name (fun _ hentries => hentries.put key value) ?_
  intro entries other hother
  rw [Table.keys_put] at hother
  split at hother
  · exact .inl hother
  · rcases List.mem_append.1 hother with hmem | hmem
    · exact .inl hmem
    · rw [List.mem_singleton.1 hmem]
      exact .inr hkey

theorem remove (h : s.Orderly d) (name key : Text) : (s.remove name key).Orderly d := by
  refine h.adjust name (fun _ hentries => hentries.erase key) ?_
  intro entries other hother
  exact .inl (((Table.erase_sublist entries key).map Prod.fst).subset hother)

theorem insertSection (h : s.Orderly d) (hne : name ≠ [])
    (hdefault : name = d.defaultSection → name = unnamedSection) :
    (s.insertSection name).Orderly d := by
  refine ⟨?_, h.wellFormed.insertSection name, ?_, ?_⟩
  · rw [defaultName_insertSection]
    exact h.defaultName
  · intro other hother
    rcases mem_sectionNames_insertSection hother with rfl | hmem
    · exact ⟨hne, hdefault⟩
    · exact h.named other hmem
  · intro content hcontent key hkey
    rcases mem_tables_insertSection hcontent with hold | rfl
    · exact h.folded content hold key hkey
    · cases hkey

theorem removeSection (h : s.Orderly d) (name : Text) : (s.removeSection name).Orderly d := by
  obtain ⟨hsections, hdefaults, hentries⟩ := h.wellFormed
  have hsub := Table.erase_sublist s.sections name
  refine ⟨h.defaultName, ⟨hsections.erase name, hdefaults, fun pair hpair => ?_⟩, ?_, ?_⟩
  · exact hentries pair (hsub.subset hpair)
  · exact fun other hother => h.named other ((hsub.map Prod.fst).subset hother)
  · intro content hcontent
    rcases List.mem_cons.1 hcontent with rfl | hmem
    · exact h.folded _ List.mem_cons_self
    · exact h.folded content (List.mem_cons_of_mem _ ((hsub.map Prod.snd).subset hmem))

theorem clear (h : s.Orderly d) : s.clear.Orderly d := by
  rw [Store.clear, h.defaultName]
  exact orderly_empty d

end Orderly

end Store

/-! ## Readings -/

namespace Reader

variable {d : Dialect} {source raw name : Text} {place : Position} {statement : Statement}
  {r q : Reader} {result : Reader × Except Fault Unit}

theorem orderly_flush (h : r.store.Orderly d) : r.flush.store.Orderly d := by
  unfold flush
  split
  · exact h
  · next p hp =>
      refine h.adjust p.name (fun _ hentries => hentries.adjust p.key _) ?_
      intro entries key hkey
      rw [Table.keys_adjust] at hkey
      exact .inl hkey

theorem Located.orderly (h : Located d r name q) (hr : r.store.Orderly d) : q.store.Orderly d := by
  cases h with
  | here => exact hr
  | made => exact hr.insertSection (by decide) fun _ => rfl

theorem Started.orderly (h : Started d place raw r statement result) (hr : r.store.Orderly d)
    (hkey : ∀ key value, statement = .entry key value → key.fold = key) :
    result.1.store.Orderly d := by
  cases h with
  | nameless | defaults | repeated | homeless => exact hr
  | opened hne hdefault => exact hr.insertSection hne fun e => absurd e hdefault
  | assigned hq => exact (hq.orderly hr).put _ (hkey _ _ rfl) _
  | duplicate hq | lost hq | malformed hq => exact hq.orderly hr

theorem Fed.orderly (h : Fed d place raw r result) (hr : r.store.Orderly d) :
    result.1.store.Orderly d := by
  cases h with
  | idle | gap | row => exact hr
  | started hclean hraw hstarted =>
      exact hstarted.orderly (orderly_flush hr) fun _ _ => Statement.fold_of_ofCleaned

theorem orderly_conclude (h : result.1.store.Orderly d) :
    (conclude source result).1.Orderly d := by
  obtain ⟨q, outcome⟩ := result
  cases outcome with
  | ok => exact orderly_flush h
  | error => exact h

end Reader

theorem Store.Orderly.read {d : Dialect} {s : Store} (h : s.Orderly d) (source text : Text) :
    (s.read d source text).1.Orderly d := by
  rw [read_eq_readLines, readLines_eq_conclude]
  refine Reader.orderly_conclude ?_
  exact Reader.feedAll_keeps (P := fun q => q.store.Orderly d)
    (fun place raw q hq => (Reader.fed d place raw q).orderly hq) source text.lines 1 h

/-! ## Edits -/

namespace Config

variable {c : Config}

/-- An edit leaves the dialect alone and an orderly store orderly. -/
theorem orderly_apply (h : c.store.Orderly c.dialect) (edit : Edit) :
    (c.apply edit).1.dialect = c.dialect ∧ (c.apply edit).1.store.Orderly c.dialect := by
  cases edit with
  | read source text => exact ⟨rfl, h.read source text⟩
  | load name content =>
      change (c.load name content).1.dialect = _ ∧ (c.load name content).1.store.Orderly _
      unfold load
      split
      · exact ⟨rfl, h.read name _⟩
      · exact ⟨rfl, h⟩
  | addSection name =>
      change (c.addSection name).1.dialect = _ ∧ (c.addSection name).1.store.Orderly _
      unfold addSection
      split
      · exact ⟨rfl, h⟩
      · next hdefault =>
          split
          · exact ⟨rfl, h⟩
          · next hempty =>
              have hne : name ≠ [] := by simpa using hempty
              split
              · exact ⟨rfl, h⟩
              · exact ⟨rfl, h.insertSection hne fun e => absurd e hdefault⟩
  | removeSection name => exact ⟨rfl, h.removeSection name⟩
  | set name key value =>
      change (c.set name key value).1.dialect = _ ∧ (c.set name key value).1.store.Orderly _
      unfold set
      split
      · exact ⟨rfl, h⟩
      · exact ⟨rfl, h.put _ (Text.fold_fold key) value⟩
  | unset name key =>
      change (c.unset name key).1.dialect = _ ∧ (c.unset name key).1.store.Orderly _
      unfold unset
      split
      · exact ⟨rfl, h⟩
      · exact ⟨rfl, h.remove _ _⟩
  | clear => exact ⟨rfl, h.clear⟩

theorem orderly_applyAll (edits : List Edit) (h : c.store.Orderly c.dialect) :
    (c.applyAll edits).dialect = c.dialect ∧ (c.applyAll edits).store.Orderly c.dialect := by
  induction edits generalizing c with
  | nil => exact ⟨rfl, h⟩
  | cons edit rest ih =>
      obtain ⟨hdialect, hstore⟩ := orderly_apply h edit
      obtain ⟨hdialect', hstore'⟩ := ih (hdialect ▸ hstore)
      exact ⟨hdialect'.trans hdialect, hdialect ▸ hstore'⟩

theorem Reachable.orderly (hc : c.Reachable) : c.store.Orderly c.dialect := by
  obtain ⟨d, edits, rfl⟩ := hc
  obtain ⟨hdialect, hstore⟩ := orderly_applyAll (c := empty d) edits (Store.orderly_empty d)
  rw [hdialect]
  exact hstore

/-- Edits of an empty configuration, whatever their outcomes, leave the dialect as
it was chosen and the store orderly. -/
theorem orderly_of_edits (d : Dialect) (edits : List Edit) :
    ((empty d).applyAll edits).dialect = d ∧ ((empty d).applyAll edits).store.Orderly d :=
  orderly_applyAll (c := empty d) edits (Store.orderly_empty d)

/-- Where the defaults bear the reserved name, a section of that name is made that
nothing can be stored in. -/
example :
    ((empty { headless := true, defaultSection := unnamedSection }).read [] "k=v".toList).1.store =
      ⟨unnamedSection, [("k".toList, some "v".toList)], [(unnamedSection, [])]⟩ := by
  decide

end Config

end Ini
