import Ini.Config.Query
import Ini.Proofs.Depth

/-!
# What a resolution reads

Resolving a value asks a store for nothing but keys that references lead to from
the value. So two stores that answer those questions alike resolve the value
alike, whatever else they hold. Which questions there are is told from the first
store alone: as long as the answers agree, the second run asks the same ones, and
where an answer is a fault both runs end with it.

The section in which a reference is looked up goes along with it. Without
references into other sections it never changes, and then all a value can depend
on is what its own section consists of, its own entries and those it inherits.
The order of the entries does not matter, nor does a default that the section
overrides.
-/

namespace Ini

open Relation

namespace Table

variable {α β : Type} [DecidableEq α]

theorem find?_append (front back : Table α β) (key : α) :
    Table.find? (front ++ back) key = (front.find? key).or (back.find? key) := by
  induction front with
  | nil => rfl
  | cons pair rest ih =>
      obtain ⟨k, value⟩ := pair
      by_cases hk : k = key
      · simp [find?, hk]
      · simpa [find?, hk] using ih

theorem find?_filter_keys (table : Table α β) (keep : α → Bool) (key : α) :
    Table.find? (table.filter fun entry => keep entry.1) key =
      if keep key then table.find? key else none := by
  induction table with
  | nil => simp [find?]
  | cons pair rest ih =>
      obtain ⟨k, value⟩ := pair
      by_cases hk : k = key
      · subst hk
        by_cases hkeep : keep k = true
        · simp [find?, hkeep]
        · simpa [find?, hkeep] using ih
      · by_cases hkeep : keep k = true
        · simpa [find?, hkeep, hk] using ih
        · simpa [find?, hkeep, hk] using ih

/-- The order of a table does not matter to what stands under a key. -/
theorem Distinct.find?_eq_of_perm {table other : Table α β} (h : table.Distinct)
    (hperm : table.Perm other) (key : α) : table.find? key = other.find? key := by
  cases hfind : table.find? key with
  | some value =>
      have hdistinct : other.Distinct := (hperm.map Prod.fst).nodup_iff.1 h
      have hmem := hperm.mem_iff.1 (mem_of_find?_eq_some hfind)
      exact (find?_eq_some_of_mem hdistinct hmem).symm
  | none =>
      have hkeys : key ∉ other.keys := fun hmem =>
        find?_eq_none_iff.1 hfind ((hperm.map Prod.fst).mem_iff.2 hmem)
      exact (find?_eq_none_iff.2 hkeys).symm

end Table

namespace Store

variable {s : Store} {name : Text} {content : Entries}

/-- Following references from a value comes to one to this key in this section.
Where values are taken as they stand there are no references. -/
def Reaches (s : Store) (mode : Interpolation) (o : Occurrence) (home wanted : Text) : Prop :=
  ∃ g, mode.grammar? = some g ∧ ∃ p, ReflTransGen (s.LeadsTo g) o p ∧ p.Cites g home wanted

/-- A section that is there says of a key what all it consists of says. -/
theorem find?_of_merged? (h : s.merged? name = some content) (key : Text) :
    s.find? name key = content.find? key := by
  obtain ⟨own, hown, hcontent⟩ := Option.map_eq_some_iff.1 h
  rw [find?, hown, Option.bind_some, ← hcontent]
  split
  · next hname =>
      have hdefaults : s.defaults = own := by simpa [entries?, hname] using hown
      rw [hdefaults]
      cases own.find? key <;> rfl
  · have hfilter := Table.find?_filter_keys s.defaults (fun k => !own.contains k) key
    rw [Table.find?_append, inherited, hfilter]
    cases hkey : own.find? key with
    | some value => rfl
    | none => simp [Table.contains, hkey]

theorem lookup_of_merged? (h : s.merged? name = some content) (key : Text) :
    s.lookup name key =
      match content.find? key with
      | some value => .ok value
      | none => .error (.noOption name key) := by
  obtain ⟨own, hown, -⟩ := Option.map_eq_some_iff.1 h
  rw [lookup, find?_of_merged? h, hown]
  rfl

/-- A look-up has no other fault than that nothing is found. -/
theorem isNotFound_of_lookup {key : Text} {fault : Fault} (h : s.lookup name key = .error fault) :
    fault.isNotFound = true := by
  unfold lookup at h
  split at h
  · cases h
  · cases h
    split <;> rfl

theorem merged?_of_mergedEntries (h : s.mergedEntries name = .ok content) :
    s.merged? name = some content := by
  unfold mergedEntries at h
  split at h
  · next entries hentries =>
      cases h
      exact hentries
  · cases h

end Store

/-! ## Two stores -/

theorem Piece.settleAll_congr {name key : Text} {refer other : Text → Text → Except Fault Text}
    {pieces : List Piece}
    (h : ∀ target wanted, .reference target wanted ∈ pieces →
      refer (target.getD name) wanted = other (target.getD name) wanted) :
    settleAll name key refer pieces = settleAll name key other pieces := by
  induction pieces with
  | nil => rfl
  | cons piece rest ih =>
      have hpiece : piece.settle name key refer = piece.settle name key other := by
        cases piece with
        | literal | flaw => rfl
        | reference target wanted => exact h target wanted List.mem_cons_self
      have hrest := ih fun target wanted hmem => h target wanted (List.mem_cons_of_mem _ hmem)
      rw [settleAll, settleAll, hpiece, hrest]

namespace Store

variable {s t : Store} {g : Grammar} {limit levels : Nat} {o : Occurrence}

theorem resolveWithin_congr
    (h : ∀ p home wanted, ReflTransGen (s.LeadsTo g) o p → p.Cites g home wanted →
      s.lookup home wanted = t.lookup home wanted) :
    s.resolveWithin g limit levels o.name o.key o.value =
      t.resolveWithin g limit levels o.name o.key o.value := by
  induction levels generalizing o with
  | zero => rfl
  | succ levels ih =>
      rw [resolveWithin_succ, resolveWithin_succ]
      refine Piece.settleAll_congr fun target wanted hpiece => ?_
      have hcites : o.Cites g (target.getD o.name) wanted := ⟨target, hpiece, rfl⟩
      refine referWithin_congr (h o _ _ .refl hcites) fun value hfound => ?_
      -- The value that is found is the next one to resolve, and all that is reached
      -- from it is reached from here.
      have hleads : s.LeadsTo g o ⟨target.getD o.name, wanted, value⟩ := ⟨hcites, hfound⟩
      exact ih fun p home wanted hp => h p home wanted (.head hleads hp)

end Store

/-! ## One section -/

theorem Grammar.Scans.target_eq_none {g : Grammar} (hg : g.qualified = false) {since text : Text}
    {pieces : List Piece} (h : g.Scans since text pieces) {target : Option Text} {wanted : Text}
    (hmem : .reference target wanted ∈ pieces) : target = none := by
  induction h with
  | nil => cases hmem
  | literal _ _ ih | doubled _ ih => exact ih (by simpa using hmem)
  | reference _ hnames _ ih =>
      rcases List.mem_cons.1 hmem with heq | hmem
      · cases heq
        cases hnames with
        | own => rfl
        | foreign hqualified =>
            rw [hg] at hqualified
            cases hqualified
      · exact ih hmem
  | unclosed | dangling => simp at hmem

theorem Occurrence.Cites.home_eq {o : Occurrence} {home wanted : Text}
    (h : o.Cites .basic home wanted) : home = o.name := by
  obtain ⟨target, hmem, rfl⟩ := h
  have hbasic : Interpolation.basic.grammar? = some .basic := rfl
  have hscans := (Grammar.lawful_of_grammar? hbasic).scans_piecesSince o.value o.value
  rw [hscans.target_eq_none rfl hmem]
  rfl

namespace Store

variable {s t : Store} {o : Occurrence} {home wanted : Text}

/-- References without a section stay in the section where they are met. -/
theorem Reaches.home_eq (h : s.Reaches .basic o home wanted) : home = o.name := by
  obtain ⟨g, hg, p, hreach, hcites⟩ := h
  cases hg
  have hname : p.name = o.name := by
    clear hcites
    induction hreach with
    | refl => rfl
    | tail _ hleads ih => exact hleads.1.home_eq.trans ih
  exact hcites.home_eq.trans hname

theorem resolveAt_congr {d : Dialect} {depth : Nat}
    (h : ∀ home wanted, s.Reaches d.interpolation o home wanted →
      s.lookup home wanted = t.lookup home wanted) :
    s.resolveAt d depth o.name o.key o.value = t.resolveAt d depth o.name o.key o.value := by
  unfold resolveAt
  split
  · rfl
  · next g hg =>
      exact resolveWithin_congr fun p home wanted hreach hcites =>
        h home wanted ⟨g, hg, p, hreach, hcites⟩

end Store

/-- Resolving a value gives the same text or fault in two stores that say the same
of every key that references lead to from it in the first. So where references
name no sections, what is asked of a section depends on what the section consists
of and nothing else. -/
theorem Config.get_of_reaches :
    (∀ (d : Dialect) (s t : Store) (depth : Nat) (name key raw : Text),
      (∀ home wanted, s.Reaches d.interpolation ⟨name, key, raw⟩ home wanted →
        s.lookup home wanted = t.lookup home wanted) →
      s.resolveAt d depth name key raw = t.resolveAt d depth name key raw) ∧
    ∀ (c other : Config) (name key : Text) (content content' : Entries),
      c.dialect = other.dialect → c.dialect.interpolation = .basic →
      c.rawItems name = .ok content → other.rawItems name = .ok content' →
      (∀ wanted, content.find? wanted = content'.find? wanted) →
      c.get name key = other.get name key := by
  refine ⟨fun d s t depth name key raw h => Store.resolveAt_congr (o := ⟨name, key, raw⟩) h, ?_⟩
  intro c other name key content content' hdialect hbasic hcontent hcontent' hfind
  have hlookup : ∀ wanted, c.store.lookup name wanted = other.store.lookup name wanted := by
    intro wanted
    rw [Store.lookup_of_merged? (Store.merged?_of_mergedEntries hcontent),
      Store.lookup_of_merged? (Store.merged?_of_mergedEntries hcontent'), hfind]
  have hsettled : ∀ found, c.settled name key found = other.settled name key found := by
    intro found
    cases found with
    | none => rfl
    | some raw =>
        rw [settled, settled, Store.resolve, Store.resolve, ← hdialect]
        refine Store.resolveAt_congr (o := ⟨name, key, raw⟩) fun home wanted hreach => ?_
        rw [hbasic] at hreach
        rw [hreach.home_eq]
        exact hlookup wanted
  rw [get, get, getRaw, getRaw, hlookup]
  simp only [hsettled]

namespace Store

/-- A section with a value that another one refers to, and a default. -/
def served : Store where
  defaultName := defaultSectionName
  defaults := [("root".toList, some "/srv".toList)]
  sections :=
    [("web".toList, [("path".toList, some "${root}/${db:Name}".toList)]),
      ("db".toList, [("kind".toList, none), ("name".toList, some "main${kind}".toList)])]

/-- The same with the default overridden, the entries in another order and more
besides. -/
def moved : Store where
  defaultName := defaultSectionName
  defaults := [("kind".toList, some "spare".toList), ("root".toList, some "/".toList)]
  sections :=
    [("db".toList, [("name".toList, some "main${kind}".toList), ("kind".toList, none)]),
      ("web".toList, [("root".toList, some "/srv".toList)]), ("etc".toList, [])]

/-- A section with the entries of `circular` in another order, one default of
which it overrides, beside another section. -/
def rearranged : Store where
  defaultName := defaultSectionName
  defaults :=
    [("flag".toList, none), ("load".toList, some "0".toList), ("base".toList, some "100%%".toList)]
  sections :=
    [("etc".toList, [("base".toList, some "1".toList)]),
      ("web".toList,
        [("load".toList, some "%(BASE)s of %(flag)s".toList),
          ("path".toList, some "%(flag)s/%(path)s".toList)])]

/-- A value that refers to both, and the values it leads to. -/
def path : Occurrence := ⟨"web".toList, "path".toList, "${root}/${db:Name}".toList⟩
def root : Occurrence := ⟨"web".toList, "root".toList, "/srv".toList⟩
def main : Occurrence := ⟨"db".toList, "name".toList, "main${kind}".toList⟩

theorem mem_of_reaches_path {home wanted : Text} (h : served.Reaches .extended path home wanted) :
    (home, wanted) ∈
      [(root.name, root.key), (main.name, main.key), (main.name, "kind".toList)] := by
  have hpath : Grammar.pieces .extended path.value =
      [.reference none root.key, .literal '/', .reference (some main.name) main.key] := by
    decide +kernel
  have hroot : Grammar.pieces .extended root.value =
      [.literal '/', .literal 's', .literal 'r', .literal 'v'] := by decide +kernel
  have hmain : Grammar.pieces .extended main.value =
      [.literal 'm', .literal 'a', .literal 'i', .literal 'n', .reference none "kind".toList] := by
    decide +kernel
  have hcited : ∀ p ∈ [path, root, main], ∀ home wanted, p.Cites .extended home wanted →
      (home, wanted) ∈
        [(root.name, root.key), (main.name, main.key), (main.name, "kind".toList)] := by
    rintro p hp home wanted ⟨target, hmem, rfl⟩
    simp only [List.mem_cons, List.not_mem_nil, or_false] at hp
    rcases hp with rfl | rfl | rfl
    · rw [hpath] at hmem
      rcases (by simpa using hmem) with ⟨rfl, rfl⟩ | ⟨rfl, rfl⟩
      · simp [root, path]
      · simp
    · simp [hroot] at hmem
    · rw [hmain] at hmem
      obtain ⟨rfl, rfl⟩ := by simpa using hmem
      simp
  obtain ⟨g, hg, p, hreach, hcites⟩ := h
  cases hg
  refine hcited p ?_ home wanted hcites
  clear hcites
  have hvalue : ∀ o : Occurrence, served.lookup o.name o.key = .ok (some o.value) →
      ∀ value, served.lookup o.name o.key = .ok (some value) → o.value = value :=
    fun o h value h' => Option.some.inj (Except.ok.inj (h.symm.trans h'))
  induction hreach with
  | refl => simp
  | @tail p q _ hleads ih =>
      have hmem := hcited p ih _ _ hleads.1
      have hfound := hleads.2
      obtain ⟨name, key, value⟩ := q
      simp only [List.mem_cons, Prod.mk.injEq, List.not_mem_nil, or_false] at hmem
      rcases hmem with ⟨rfl, rfl⟩ | ⟨rfl, rfl⟩ | ⟨rfl, rfl⟩
      · obtain rfl := hvalue root rfl _ hfound
        exact .tail _ (.head _)
      · obtain rfl := hvalue main rfl _ hfound
        exact .tail _ (.tail _ (.head _))
      · cases hfound

end Store

theorem Config.get_of_reaches_served :
    (∀ home wanted, Store.served.Reaches .extended Store.path home wanted →
        Store.served.lookup home wanted = Store.moved.lookup home wanted) ∧
      Store.served.resolveAt { interpolation := .extended } 3 Store.path.name Store.path.key
          Store.path.value =
        Store.moved.resolveAt { interpolation := .extended } 3 Store.path.name Store.path.key
          Store.path.value ∧
      get "web".toList "LOAD".toList ⟨.standard, .circular⟩ =
        get "web".toList "LOAD".toList ⟨.standard, .rearranged⟩ := by
  have hlookup : ∀ home wanted, Store.served.Reaches .extended Store.path home wanted →
      Store.served.lookup home wanted = Store.moved.lookup home wanted := by
    intro home wanted h
    have hmem := Store.mem_of_reaches_path h
    simp only [List.mem_cons, Prod.mk.injEq, List.not_mem_nil, or_false] at hmem
    rcases hmem with ⟨rfl, rfl⟩ | ⟨rfl, rfl⟩ | ⟨rfl, rfl⟩ <;> rfl
  have hcontent : rawItems "web".toList ⟨.standard, .circular⟩ =
      .ok [("path".toList, some "%(flag)s/%(path)s".toList),
        ("load".toList, some "%(BASE)s of %(flag)s".toList),
        ("base".toList, some "100%%".toList), ("flag".toList, none)] := rfl
  have hcontent' : rawItems "web".toList ⟨.standard, .rearranged⟩ =
      .ok [("load".toList, some "%(BASE)s of %(flag)s".toList),
        ("path".toList, some "%(flag)s/%(path)s".toList),
        ("flag".toList, none), ("base".toList, some "100%%".toList)] := rfl
  refine ⟨hlookup, get_of_reaches.1 _ _ _ _ _ _ _ hlookup, ?_⟩
  exact get_of_reaches.2 ⟨.standard, .circular⟩ ⟨.standard, .rearranged⟩ _ _ _ _ rfl rfl hcontent
    hcontent' (Table.Distinct.find?_eq_of_perm (by decide) (by decide))

end Ini
