import Ini.Proofs.Orderly
import Ini.Proofs.Reach
import Ini.Proofs.Traversal

/-!
# Asking for one and asking for all

Whether a section is there, which keys it has, what stands under one of them and
what stands under all of them: each of these questions is answered by a function
of its own, and each of the functions has its own way of adding what is inherited.
Some tell the defaults by the name that the dialect has for them, others by the name
that the store has.

In a configuration that edits lead to both are one name, no key stands twice, and
every key is folded. Then all the answers are read off one table, the own entries of
a section and behind them those it inherits (`rawItems_eq`). The keys are the keys of
that table and the value under a key is the value in it. What is resolved is the
table as well, entry by entry, so asking for all values fails exactly where asking
for them one by one in the order of the table fails first.
-/

namespace Ini

theorem Table.keys_append {α β : Type} (front back : Table α β) :
    Table.keys (front ++ back) = front.keys ++ back.keys := List.map_append

namespace Store

variable {d : Dialect} {s : Store} {name : Text} {own base content : Entries}

theorem keys_inherited (own base : Entries) :
    (inherited own base).keys = base.keys.filter fun key => !own.contains key := by
  rw [inherited, Table.keys, Table.keys, List.filter_map]
  rfl

theorem inherited_self (own : Entries) : inherited own own = [] := by
  refine List.filter_eq_nil_iff.2 fun entry hentry => ?_
  have hkey : own.contains entry.1 = true :=
    Table.contains_iff_mem_keys.2 (List.mem_map_of_mem hentry)
  simp [hkey]

theorem distinct_append_inherited (hown : own.Distinct) (hbase : base.Distinct) :
    Table.Distinct (own ++ inherited own base) := by
  rw [Table.Distinct, Table.keys_append]
  refine List.nodup_append.2 ⟨hown, ?_, ?_⟩
  · exact ((List.filter_sublist (l := base)).map Prod.fst).nodup hbase
  · rintro key hkey other hother rfl
    rw [keys_inherited, List.mem_filter, Bool.not_eq_true', Table.contains_eq_false_iff] at hother
    exact hother.2 hkey

/-- The defaults inherit nothing from themselves, so they are no special case. -/
theorem merged?_eq (s : Store) (name : Text) :
    s.merged? name = (s.entries? name).map fun own => own ++ inherited own s.defaults := by
  by_cases hname : name = s.defaultName
  · simp [merged?, entries?, hname, inherited_self]
  · simp [merged?, hname]

theorem mem_tables_of_entries? (h : s.entries? name = some content) : content ∈ s.tables := by
  unfold entries? at h
  split at h
  · cases h
    exact List.mem_cons_self
  · have hmem := Table.mem_of_find?_eq_some h
    exact List.mem_cons_of_mem _ (List.mem_map_of_mem hmem)

theorem WellFormed.distinct (h : s.WellFormed) (hcontent : content ∈ s.tables) :
    content.Distinct := by
  rcases List.mem_cons.1 hcontent with rfl | hmem
  · exact h.2.1
  · obtain ⟨pair, hpair, rfl⟩ := List.mem_map.1 hmem
    exact h.2.2 pair hpair

end Store

namespace Config

variable {c : Config} {name key : Text} {own content : Entries} {value : Option Text}

/-! ## Raw answers -/

theorem rawItems_eq (c : Config) (name : Text) :
    c.rawItems name =
      match c.store.entries? name with
      | some own => .ok (own ++ Store.inherited own c.store.defaults)
      | none => .error (.noSection name) := by
  rw [rawItems, Store.mergedEntries, Store.merged?_eq]
  cases c.store.entries? name <;> rfl

theorem exists_own_of_rawItems (hcontent : c.rawItems name = .ok content) :
    ∃ own, c.store.entries? name = some own ∧
      content = own ++ Store.inherited own c.store.defaults := by
  rw [rawItems_eq] at hcontent
  split at hcontent
  · next own hown =>
      cases hcontent
      exact ⟨own, hown, rfl⟩
  · cases hcontent

theorem contains_rawItems (hcontent : c.rawItems name = .ok content) (key : Text) :
    ∃ own, c.store.entries? name = some own ∧
      content.contains key = (own.contains key || c.store.defaults.contains key) := by
  obtain ⟨own, hown, -⟩ := exists_own_of_rawItems hcontent
  have hfind := Store.find?_of_merged? (Store.merged?_of_mergedEntries hcontent) key
  rw [Store.find?, hown, Option.bind_some] at hfind
  refine ⟨own, hown, ?_⟩
  rw [Table.contains, ← hfind, Option.isSome_or]
  rfl

section

variable (h : c.store.Orderly c.dialect)

include h

theorem hasSection_eq (name : Text) : c.hasSection name = (c.store.entries? name).isSome := by
  rw [hasSection, Store.entries?, h.defaultName]
  by_cases hname : name = c.dialect.defaultSection
  · simp [hname]
  · simp [hname, Store.hasSection, Table.contains]

theorem defaults_eq_of_entries? (hname : name = c.dialect.defaultSection)
    (hown : c.store.entries? name = some own) : c.store.defaults = own := by
  simpa [Store.entries?, h.defaultName, hname] using hown

/-- The keys are those of the entries. -/
theorem keys_eq (name : Text) : c.keys name = (c.rawItems name).map Table.keys := by
  rw [rawItems_eq, keys]
  cases hown : c.store.entries? name with
  | none => rfl
  | some own =>
      refine congrArg Except.ok ?_
      split
      · next hname =>
          rw [defaults_eq_of_entries? h hname hown, Store.inherited_self, List.append_nil]
      · rw [Table.keys_append, Store.keys_inherited]

theorem hasKey_eq (hcontent : c.rawItems name = .ok content) (key : Text) :
    c.hasKey name key = content.contains key.fold := by
  obtain ⟨own, hown, hcontains⟩ := contains_rawItems hcontent key.fold
  rw [hcontains, hasKey, hown]
  by_cases hname : name = c.dialect.defaultSection
  · simp [hname, defaults_eq_of_entries? h hname hown]
  · simp [hname]

theorem distinct_rawItems (hcontent : c.rawItems name = .ok content) : content.Distinct := by
  obtain ⟨own, hown, rfl⟩ := exists_own_of_rawItems hcontent
  have hdistinct := h.wellFormed.distinct (Store.mem_tables_of_entries? hown)
  exact Store.distinct_append_inherited hdistinct h.wellFormed.2.1

theorem fold_rawItems (hcontent : c.rawItems name = .ok content) {key : Text}
    (hkey : key ∈ content.keys) : key.fold = key := by
  obtain ⟨own, hown, rfl⟩ := exists_own_of_rawItems hcontent
  rw [Table.keys_append] at hkey
  rcases List.mem_append.1 hkey with hmem | hmem
  · exact h.folded own (Store.mem_tables_of_entries? hown) key hmem
  · have hbase : key ∈ c.store.defaults.keys :=
      ((List.filter_sublist (l := c.store.defaults)).map Prod.fst).subset hmem
    exact h.folded _ List.mem_cons_self key hbase

end

/-- The raw answers about a section that is there, read off its entries. -/
structure Known (c : Config) (name : Text) (content : Entries) : Prop where
  keys : c.keys name = .ok content.keys
  /-- The own keys come first, then the keys of the defaults that are not among them. -/
  order : ∃ own, c.store.entries? name = some own ∧
    content.keys = own.keys ++ c.store.defaults.keys.filter fun key => key ∉ own.keys
  distinct : content.keys.Nodup
  hasKey_iff : ∀ key, c.hasKey name key = true ↔ key.fold ∈ content.keys
  getRaw_iff : ∀ key, (∃ value, c.getRaw name key = .ok value) ↔ key.fold ∈ content.keys
  getRaw : ∀ key value, c.getRaw name key = .ok value ↔ content.find? key.fold = some value

/-- The raw answers about a section that is not there. Of the values it would
inherit they still tell. -/
structure Unknown (c : Config) (name : Text) : Prop where
  keys : c.keys name = .error (.noSection name)
  rawItems : c.rawItems name = .error (.noSection name)
  hasKey : ∀ key, c.hasKey name key = false
  getRaw : ∀ key, c.getRaw name key =
    match c.store.defaults.find? key.fold with
    | some value => .ok value
    | none => .error (.noSection name)

theorem getRaw_eq_ok_iff (hcontent : c.rawItems name = .ok content) :
    c.getRaw name key = .ok value ↔ content.find? key.fold = some value := by
  rw [getRaw, Store.lookup_of_merged? (Store.merged?_of_mergedEntries hcontent)]
  split
  · next found hfound => simp [hfound]
  · next hfound => simp [hfound]

theorem known (h : c.store.Orderly c.dialect) (hcontent : c.rawItems name = .ok content) :
    c.Known name content := by
  refine ⟨?_, ?_, distinct_rawItems h hcontent, fun key => ?_, fun key => ?_, fun key value => ?_⟩
  · rw [keys_eq h, hcontent]
    rfl
  · obtain ⟨own, hown, rfl⟩ := exists_own_of_rawItems hcontent
    refine ⟨own, hown, ?_⟩
    rw [Table.keys_append, Store.keys_inherited]
    simp [← Table.contains_iff_mem_keys]
  · rw [hasKey_eq h hcontent, Table.contains_iff_mem_keys]
  · simp only [getRaw_eq_ok_iff hcontent]
    rw [← Table.contains_iff_mem_keys, Table.contains, Option.isSome_iff_exists]
  · exact getRaw_eq_ok_iff hcontent

theorem unknown (h : c.store.Orderly c.dialect) (hname : c.hasSection name = false) :
    c.Unknown name := by
  have hnone : c.store.entries? name = none := by
    simpa [hasSection_eq h] using hname
  refine ⟨by rw [keys, hnone], by rw [rawItems_eq, hnone], fun key => by rw [hasKey, hnone], ?_⟩
  intro key
  rw [getRaw, Store.lookup, Store.find?, hnone]
  rfl

/-- In a configuration that edits lead to, a section is there just if it can be
asked for its keys, and just if it can be asked for its entries. Its keys, whether a
key is there and the value under a key can all be told from the entries. -/
theorem known_of_rawItems (hc : c.Reachable) (name : Text) :
    ((∃ names, c.keys name = .ok names) ↔ c.hasSection name = true) ∧
      ((∃ content, c.rawItems name = .ok content) ↔ c.hasSection name = true) ∧
      (∀ content, c.rawItems name = .ok content → c.Known name content) ∧
      (c.hasSection name = false → c.Unknown name) := by
  have h := hc.orderly
  have hitems : (∃ content, c.rawItems name = .ok content) ↔ c.hasSection name = true := by
    rw [hasSection_eq h, rawItems_eq]
    cases c.store.entries? name <;> simp
  refine ⟨?_, hitems, fun content => known h, unknown h⟩
  rw [← hitems, keys_eq h]
  cases c.rawItems name <;> simp [Except.map]

/-- A section that overrides one default and inherits the other. -/
def overriding : Config where
  dialect := .standard
  store :=
    { defaultName := defaultSectionName
      defaults := [("base".toList, some "1".toList), ("load".toList, some "2".toList)]
      sections :=
        [("web".toList, [("port".toList, some "%(load)s".toList), ("base".toList, none)])] }

theorem reachable_overriding : overriding.Reachable :=
  ⟨.standard,
    [.read [] "[DEFAULT]\nbase = 1\nload = 2\n[web]\nport = %(load)s".toList,
      .set "web".toList "BASE".toList none], rfl⟩

theorem known_of_rawItems_overriding :
    overriding.Reachable ∧ overriding.hasSection "web".toList = true ∧
      overriding.keys "web".toList = .ok ["port".toList, "base".toList, "load".toList] ∧
      overriding.getRaw "web".toList "Load".toList = .ok (some "2".toList) ∧
      overriding.hasKey "web".toList "root".toList = false ∧
      overriding.hasSection "db".toList = false ∧
      overriding.keys "db".toList = .error (.noSection "db".toList) ∧
      overriding.getRaw "db".toList "Base".toList = .ok (some "1".toList) := by
  obtain ⟨-, hitems, hknown, -⟩ := known_of_rawItems reachable_overriding "web".toList
  obtain ⟨-, -, -, hunknown⟩ := known_of_rawItems reachable_overriding "db".toList
  have hcontent : overriding.rawItems "web".toList =
      .ok [("port".toList, some "%(load)s".toList), ("base".toList, none),
        ("load".toList, some "2".toList)] := rfl
  have hweb := hknown _ hcontent
  have hdb := hunknown rfl
  refine ⟨reachable_overriding, hitems.1 ⟨_, hcontent⟩, hweb.keys, ?_, ?_, rfl, hdb.keys, ?_⟩
  · exact (hweb.getRaw _ _).2 rfl
  · rw [Bool.eq_false_iff, ne_eq, hweb.hasKey_iff]
    decide
  · exact hdb.getRaw _

/-! ## Resolved answers -/

/-- An entry and the same with its value resolved. A key without a value stays so. -/
def Resolved (c : Config) (name : Text) (entry answer : Text × Option Text) : Prop :=
  ∃ text, c.settled name entry.1 entry.2 = .ok text ∧
    answer = (entry.1, entry.2.map fun _ => text)

/-- What asking a section for all its values gives, told from asking for its keys
one by one. -/
structure Gathered (c : Config) (name : Text) (names : List Text) : Prop where
  succeeds_iff : (∃ content, c.items name = .ok content) ↔
    ∀ key ∈ names, ∃ text, c.get name key = .ok text
  keys : ∀ content, c.items name = .ok content → content.keys = names
  bare : ∀ content, c.items name = .ok content → ∀ key ∈ names, c.getRaw name key = .ok none →
    content.find? key = some none ∧ c.get name key = .ok []
  valued : ∀ content, c.items name = .ok content → ∀ key ∈ names, ∀ raw,
    c.getRaw name key = .ok (some raw) →
      ∃ text, c.get name key = .ok text ∧ content.find? key = some (some text)
  /-- The first key that fails decides the fault. -/
  fails_iff : ∀ fault, c.items name = .error fault ↔
    ∃ front key back, names = front ++ key :: back ∧
      (∀ other ∈ front, ∃ text, c.get name other = .ok text) ∧ c.get name key = .error fault

variable {entry : Text × Option Text} {entries answers : Entries} {text : Text} {fault : Fault}

/-- An entry with its value resolved. -/
def resolveEntry (c : Config) (name : Text) (entry : Text × Option Text) :
    Except Fault (Text × Option Text) :=
  (c.settled name entry.1 entry.2).map fun text => (entry.1, entry.2.map fun _ => text)

theorem resolveEntry_eq_ok_iff {answer : Text × Option Text} :
    c.resolveEntry name entry = .ok answer ↔ c.Resolved name entry answer := by
  rw [resolveEntry, Traversal.map_eq_ok_iff, Resolved]
  simp only [eq_comm]

theorem resolveEntries_eq_mapM (c : Config) (name : Text) (entries : Entries) :
    c.resolveEntries name entries = List.mapM (c.resolveEntry name) entries := by
  induction entries with
  | nil => rfl
  | cons entry rest ih =>
      obtain ⟨key, value⟩ := entry
      rw [List.mapM_cons, ← ih, resolveEntry]
      cases value with
      | none => rfl
      | some raw =>
          rw [resolveEntries, settled]
          cases c.store.resolve c.dialect name key raw <;> rfl

theorem resolveEntries_eq_ok_iff :
    c.resolveEntries name entries = .ok answers ↔
      List.Forall₂ (c.Resolved name) entries answers := by
  rw [resolveEntries_eq_mapM, Traversal.mapM_eq_ok_iff]
  simp only [resolveEntry_eq_ok_iff]

theorem exists_resolveEntry_iff :
    (∃ answer, c.resolveEntry name entry = .ok answer) ↔
      ∃ text, c.settled name entry.1 entry.2 = .ok text := by
  simp [resolveEntry, Traversal.map_eq_ok_iff]

/-- The first entry to fail decides the fault. -/
theorem resolveEntries_eq_error_iff :
    c.resolveEntries name entries = .error fault ↔
      ∃ front entry back, entries = front ++ entry :: back ∧
        (∀ other ∈ front, ∃ text, c.settled name other.1 other.2 = .ok text) ∧
        c.settled name entry.1 entry.2 = .error fault := by
  rw [resolveEntries_eq_mapM, Traversal.mapM_eq_error_iff]
  simp only [← exists_resolveEntry_iff, ← Traversal.exists_forall₂_iff]
  constructor
  · rintro ⟨front, entry, back, answers, hentries, hfront, hentry⟩
    exact ⟨front, entry, back, hentries, ⟨answers, hfront⟩, Traversal.map_eq_error_iff.1 hentry⟩
  · rintro ⟨front, entry, back, hentries, ⟨answers, hfront⟩, hentry⟩
    exact ⟨front, entry, back, answers, hentries, hfront, Traversal.map_eq_error_iff.2 hentry⟩

theorem settled_of_resolved (h : List.Forall₂ (c.Resolved name) entries answers) :
    ∀ entry ∈ entries, ∃ text, c.settled name entry.1 entry.2 = .ok text := by
  intro entry hentry
  obtain ⟨answer, text, htext, -⟩ := Traversal.exists_forall₂_iff.1 ⟨answers, h⟩ entry hentry
  exact ⟨text, htext⟩

theorem keys_of_resolved (h : List.Forall₂ (c.Resolved name) entries answers) :
    answers.keys = entries.keys := by
  induction h with
  | nil => rfl
  | cons hentry _ ih =>
      obtain ⟨text, -, rfl⟩ := hentry
      exact congrArg (_ :: ·) ih

theorem find?_of_resolved (h : List.Forall₂ (c.Resolved name) entries answers)
    (hvalue : entries.find? key = some value) :
    ∃ text, c.settled name key value = .ok text ∧
      answers.find? key = some (value.map fun _ => text) := by
  induction h with
  | nil => cases hvalue
  | @cons entry _ _ _ hentry _ ih =>
      obtain ⟨text, htext, rfl⟩ := hentry
      obtain ⟨k, old⟩ := entry
      rw [Table.find?] at hvalue ⊢
      split at hvalue
      · next hk =>
          cases hvalue
          subst hk
          exact ⟨text, htext, if_pos rfl⟩
      · next hk =>
          rw [if_neg hk]
          exact ih hvalue

theorem get_of_getRaw (h : c.getRaw name key = .ok value) :
    c.get name key = c.settled name key value := by
  rw [get, h]
  rfl

theorem items_of_rawItems (h : c.rawItems name = .ok content) :
    c.items name = c.resolveEntries name content := by
  rw [items, h]
  rfl

/-- A look-up that finds nothing has no other fault than that. -/
theorem getOr_eq (c : Config) (name key fallback : Text) :
    c.getOr name key fallback =
      match c.getRaw name key with
      | .ok _ => c.get name key
      | .error _ => .ok fallback := by
  rw [getOr]
  cases hraw : c.getRaw name key with
  | ok value => exact (get_of_getRaw hraw).symm
  | error fault => exact if_pos (Store.isNotFound_of_lookup hraw)

/-- Every key of the entries is folded, so it is its own spelling. -/
theorem get_of_mem (h : c.store.Orderly c.dialect) (hcontent : c.rawItems name = .ok content)
    (hentry : entry ∈ content) : c.get name entry.1 = c.settled name entry.1 entry.2 := by
  have hfold : entry.1.fold = entry.1 := fold_rawItems h hcontent (List.mem_map_of_mem hentry)
  have hfind := Table.find?_eq_some_of_mem (distinct_rawItems h hcontent) hentry
  refine get_of_getRaw ((getRaw_eq_ok_iff hcontent).2 ?_)
  rw [hfold]
  exact hfind

theorem exists_items_iff (hcontent : c.rawItems name = .ok content) :
    (∃ answers, c.items name = .ok answers) ↔
      ∀ entry ∈ content, ∃ text, c.settled name entry.1 entry.2 = .ok text := by
  rw [items_of_rawItems hcontent]
  constructor
  · rintro ⟨answers, hanswers⟩
    exact settled_of_resolved (resolveEntries_eq_ok_iff.1 hanswers)
  · intro hall
    cases houtcome : c.resolveEntries name content with
    | ok answers => exact ⟨answers, rfl⟩
    | error fault =>
        obtain ⟨front, entry, back, rfl, -, hentry⟩ := resolveEntries_eq_error_iff.1 houtcome
        obtain ⟨text, htext⟩ := hall entry (by simp)
        rw [hentry] at htext
        cases htext

theorem gathered (h : c.store.Orderly c.dialect) (hcontent : c.rawItems name = .ok content) :
    c.Gathered name content.keys := by
  have hget : ∀ entry ∈ content, c.get name entry.1 = c.settled name entry.1 entry.2 :=
    fun entry hentry => get_of_mem h hcontent hentry
  have hfind : ∀ answers, c.items name = .ok answers → ∀ key ∈ content.keys, ∀ value,
      c.getRaw name key = .ok value → ∃ text, c.get name key = .ok text ∧
        answers.find? key = some (value.map fun _ => text) := by
    intro answers hanswers key hkey value hraw
    rw [items_of_rawItems hcontent, resolveEntries_eq_ok_iff] at hanswers
    have hvalue : content.find? key = some value := by
      rwa [getRaw_eq_ok_iff hcontent, fold_rawItems h hcontent hkey] at hraw
    rw [get_of_getRaw hraw]
    exact find?_of_resolved hanswers hvalue
  refine ⟨?_, ?_, ?_, ?_, ?_⟩
  · rw [exists_items_iff hcontent, Table.keys, List.forall_mem_map]
    exact forall₂_congr fun entry hentry => by rw [hget entry hentry]
  · intro answers hanswers
    rw [items_of_rawItems hcontent, resolveEntries_eq_ok_iff] at hanswers
    exact keys_of_resolved hanswers
  · intro answers hanswers key hkey hraw
    obtain ⟨text, htext, hanswer⟩ := hfind answers hanswers key hkey none hraw
    exact ⟨hanswer, get_of_getRaw hraw⟩
  · intro answers hanswers key hkey raw hraw
    exact hfind answers hanswers key hkey (some raw) hraw
  · intro fault
    rw [items_of_rawItems hcontent, resolveEntries_eq_error_iff]
    constructor
    · rintro ⟨front, entry, back, rfl, hfront, hentry⟩
      refine ⟨front.map Prod.fst, entry.1, back.map Prod.fst, by simp [Table.keys], ?_, ?_⟩
      · rw [List.forall_mem_map]
        intro other hother
        rw [hget other (by simp [hother])]
        exact hfront other hother
      · rw [hget entry (by simp)]
        exact hentry
    · rintro ⟨front, key, back, heq, hfront, hkey⟩
      obtain ⟨before, rest, rfl, rfl, hrest⟩ := List.map_eq_append_iff.1 heq
      obtain ⟨entry, after, rfl, rfl, rfl⟩ := List.map_eq_cons_iff.1 hrest
      refine ⟨before, entry, after, rfl, fun other hother => ?_, ?_⟩
      · rw [← hget other (by simp [hother])]
        exact hfront other.1 (List.mem_map_of_mem hother)
      · rw [← hget entry (by simp)]
        exact hkey

/-- In a configuration that edits lead to, all values of a section that is there can
be had just if each of its keys can be asked for, and then they are the answers that
its keys get; else the fault is that of the first key to fail. Where a text is given
for a key that is not there, it stands in for nothing but the look-up. -/
theorem gathered_of_hasSection (hc : c.Reachable) :
    (∀ name, c.hasSection name = true →
      ∃ names, c.keys name = .ok names ∧ c.Gathered name names) ∧
    ∀ name key fallback, c.getOr name key fallback =
      match c.getRaw name key with
      | .ok _ => c.get name key
      | .error _ => .ok fallback := by
  have h := hc.orderly
  refine ⟨fun name hname => ?_, getOr_eq c⟩
  rw [hasSection_eq h, Option.isSome_iff_exists] at hname
  obtain ⟨own, hown⟩ := hname
  have hcontent : c.rawItems name = .ok (own ++ Store.inherited own c.store.defaults) := by
    rw [rawItems_eq, hown]
  refine ⟨_, ?_, gathered h hcontent⟩
  rw [keys_eq h, hcontent]
  rfl

/-- A section two of whose values cannot be resolved. -/
def dangling : Config where
  dialect := .standard
  store :=
    { defaultName := defaultSectionName
      sections :=
        [("web".toList,
          [("port".toList, some "3".toList), ("host".toList, some "%(name)s:%(port)s".toList),
            ("load".toList, some "1%".toList)])] }

theorem gathered_of_hasSection_dangling :
    overriding.Reachable ∧ overriding.hasSection "web".toList = true ∧
      (∃ content, overriding.items "web".toList = .ok content ∧
        content.keys = ["port".toList, "base".toList, "load".toList] ∧
        content.find? "port".toList = some (some "2".toList) ∧
        content.find? "base".toList = some none) ∧
      dangling.Reachable ∧ dangling.hasSection "web".toList = true ∧
      dangling.items "web".toList = .error (.noOption "web".toList "name".toList) ∧
      dangling.getOr "web".toList "Host".toList "here".toList =
        .error (.noOption "web".toList "name".toList) ∧
      dangling.getOr "web".toList "name".toList "here".toList = .ok "here".toList := by
  have hdangling : dangling.Reachable :=
    ⟨.standard,
      [.read [] "[web]\nport = 3\nhost = %(name)s:%(port)s\nload = 1%".toList], rfl⟩
  have hport : overriding.get "web".toList "port".toList = .ok "2".toList := by decide +kernel
  have hhost : dangling.get "web".toList "host".toList =
      .error (.noOption "web".toList "name".toList) := by decide +kernel
  have hHost : dangling.get "web".toList "Host".toList =
      .error (.noOption "web".toList "name".toList) := by decide +kernel
  obtain ⟨hall, -⟩ := gathered_of_hasSection reachable_overriding
  obtain ⟨hall', hor⟩ := gathered_of_hasSection hdangling
  obtain ⟨names, hnames, hweb⟩ := hall "web".toList rfl
  obtain ⟨names', hnames', hweb'⟩ := hall' "web".toList rfl
  obtain rfl : ["port".toList, "base".toList, "load".toList] = names := Except.ok.inj hnames
  obtain rfl : ["port".toList, "host".toList, "load".toList] = names' := Except.ok.inj hnames'
  have hsucceeds : ∃ content, overriding.items "web".toList = .ok content := by
    refine hweb.succeeds_iff.2 fun key hkey => ?_
    simp only [List.mem_cons, List.not_mem_nil, or_false] at hkey
    rcases hkey with rfl | rfl | rfl
    · exact ⟨_, hport⟩
    · exact ⟨[], rfl⟩
    · exact ⟨"2".toList, by decide +kernel⟩
  obtain ⟨content, hcontent⟩ := hsucceeds
  refine ⟨reachable_overriding, rfl, ⟨content, hcontent, hweb.keys content hcontent, ?_, ?_⟩,
    hdangling, rfl, ?_, ?_, hor _ _ _⟩
  · obtain ⟨text, htext, hfind⟩ :=
      hweb.valued content hcontent "port".toList (by simp) "%(load)s".toList rfl
    rw [hfind, ← Except.ok.inj (hport.symm.trans htext)]
  · exact (hweb.bare content hcontent "base".toList (by simp) rfl).1
  · refine (hweb'.fails_iff _).2 ⟨["port".toList], "host".toList, ["load".toList], rfl, ?_, hhost⟩
    exact List.forall_mem_singleton.2 ⟨"3".toList, by decide +kernel⟩
  · rw [hor]
    exact hHost

end Config

end Ini
