import Ini.Proofs.Resolution
import Mathlib.Logic.Relation

/-!
# How deep values are nested

The limit on the depth of a value is a limit on chains of references. A chain
starts with the value itself and goes on from each value to one it refers to; a
key without a value ends no chain and lengthens none, for there is nothing in it
to resolve. If nothing else is wrong with any value on the way, a value resolves
just if no chain from it has more values than the limit, and the fault names the
value at which some chain goes over it.

One half needs no assumption. A value that resolves has resolved all values it
refers to one level deeper, so its chains are short enough whatever else the
store holds. That is why a value that leads into a circle resolves under no
limit: around the circle there are chains of every length.
-/

namespace Ini

open Relation

/-- A value and where it is met: the section it is resolved in, and its key. -/
structure Occurrence where
  name : Text
  key : Text
  value : Text
  deriving DecidableEq, Repr

/-- One of the references of a value is to this key in this section. -/
def Occurrence.Cites (g : Grammar) (o : Occurrence) (home wanted : Text) : Prop :=
  ∃ target, .reference target wanted ∈ g.pieces o.value ∧ home = target.getD o.name

namespace Store

/-- A reference leads from one value to another. -/
def LeadsTo (s : Store) (g : Grammar) (o p : Occurrence) : Prop :=
  o.Cites g p.name p.key ∧ s.lookup p.name p.key = .ok (some p.value)

/-- Nothing is wrong with a value itself: it has no flaw, and what its references
are to is there. -/
structure Supports (s : Store) (g : Grammar) (o : Occurrence) : Prop where
  flawless : ∀ what, .flaw what ∉ g.pieces o.value
  found : ∀ home wanted, o.Cites g home wanted → ∃ value, s.lookup home wanted = .ok value

end Store

theorem Piece.exists_settle_of_mem {name key out : Text} {refer : Text → Text → Except Fault Text}
    {pieces : List Piece} (h : settleAll name key refer pieces = .ok out) {piece : Piece}
    (hpiece : piece ∈ pieces) : ∃ text, piece.settle name key refer = .ok text := by
  obtain ⟨texts, hforall, -⟩ := settleAll_eq_ok_iff.1 h
  clear h
  induction hforall with
  | nil => cases hpiece
  | @cons _ text _ _ htext _ ih =>
      rcases List.mem_cons.1 hpiece with rfl | hmem
      · exact ⟨text, htext⟩
      · exact ih hmem

namespace Store

variable {s : Store} {g : Grammar} {limit levels : Nat} {o p : Occurrence} {out : Text}
  {fault : Fault}

theorem referWithin_of_lookup {home wanted value : Text}
    (h : s.lookup home wanted = .ok (some value)) :
    s.referWithin g limit levels home wanted =
      s.resolveWithin g limit levels home wanted value := by
  rw [referWithin, h]
  rfl

/-- Only a value that is found is resolved further. -/
theorem referWithin_congr {t : Store} {limit' levels' : Nat} {home wanted : Text}
    (hlookup : s.lookup home wanted = t.lookup home wanted)
    (h : ∀ value, s.lookup home wanted = .ok (some value) →
      s.resolveWithin g limit levels home wanted value =
        t.resolveWithin g limit' levels' home wanted value) :
    s.referWithin g limit levels home wanted = t.referWithin g limit' levels' home wanted := by
  cases hfound : s.lookup home wanted with
  | error fault =>
      rw [referWithin, referWithin, ← hlookup, hfound]
      rfl
  | ok found =>
      cases found with
      | none =>
          rw [referWithin, referWithin, ← hlookup, hfound]
          rfl
      | some value =>
          rw [referWithin_of_lookup hfound, referWithin_of_lookup (hlookup ▸ hfound)]
          exact h value hfound

theorem LeadsTo.exists_resolveWithin (h : s.LeadsTo g o p)
    (ho : s.resolveWithin g limit (levels + 1) o.name o.key o.value = .ok out) :
    ∃ text, s.resolveWithin g limit levels p.name p.key p.value = .ok text := by
  obtain ⟨⟨target, hpiece, hhome⟩, hlookup⟩ := h
  rw [resolveWithin_succ] at ho
  obtain ⟨text, htext⟩ := Piece.exists_settle_of_mem ho hpiece
  rw [Piece.settle, ← hhome, referWithin_of_lookup hlookup] at htext
  exact ⟨text, htext⟩

/-- The chains of a value that resolves are as short as the levels allow. -/
theorem length_le_of_resolveWithin
    (h : s.resolveWithin g limit levels o.name o.key o.value = .ok out) {rest : List Occurrence}
    (hchain : List.IsChain (s.LeadsTo g) (o :: rest)) : rest.length + 1 ≤ levels := by
  induction levels generalizing o out rest with
  | zero => cases h
  | succ levels ih =>
      cases rest with
      | nil => simp
      | cons p rest =>
          obtain ⟨hleads, hchain⟩ := List.isChain_cons_cons.1 hchain
          obtain ⟨text, htext⟩ := hleads.exists_resolveWithin h
          have hlength := ih htext hchain
          rw [List.length_cons]
          omega

/-- A value fails by a flaw, by a reference that finds nothing, or with a value that
it leads to. -/
theorem cases_of_resolveWithin_succ
    (h : s.resolveWithin g limit (levels + 1) o.name o.key o.value = .error fault) :
    (∃ what, .flaw what ∈ g.pieces o.value ∧ fault = .badReference o.name o.key what) ∨
      (∃ home wanted, o.Cites g home wanted ∧ s.lookup home wanted = .error fault) ∨
      ∃ p, s.LeadsTo g o p ∧ s.resolveWithin g limit levels p.name p.key p.value = .error fault := by
  rw [resolveWithin_succ, Piece.settleAll_eq_error_iff] at h
  obtain ⟨front, piece, back, texts, hpieces, -, hpiece⟩ := h
  have hmem : piece ∈ g.pieces o.value := by simp [hpieces]
  cases piece with
  | literal c => cases hpiece
  | flaw what =>
      cases hpiece
      exact .inl ⟨what, hmem, rfl⟩
  | reference target wanted =>
      have hcites : o.Cites g (target.getD o.name) wanted := ⟨target, hmem, rfl⟩
      rw [Piece.settle] at hpiece
      cases hlookup : s.lookup (target.getD o.name) wanted with
      | error other =>
          rw [referWithin, hlookup] at hpiece
          cases hpiece
          exact .inr (.inl ⟨_, wanted, hcites, hlookup⟩)
      | ok found =>
          cases found with
          | none =>
              rw [referWithin, hlookup] at hpiece
              cases hpiece
          | some value =>
              rw [referWithin_of_lookup hlookup] at hpiece
              exact .inr (.inr ⟨⟨_, wanted, value⟩, ⟨hcites, hlookup⟩, hpiece⟩)

/-- Where a value of a sound store fails to resolve, a chain goes over the limit. -/
theorem exists_chain_of_resolveWithin
    (hall : ∀ p, ReflTransGen (s.LeadsTo g) o p → s.Supports g p)
    (h : s.resolveWithin g limit levels o.name o.key o.value = .error fault) :
    ∃ rest p, List.IsChain (s.LeadsTo g) (o :: rest) ∧ (o :: rest)[levels]? = some p ∧
      fault = .tooDeep p.name p.key limit := by
  induction levels generalizing o with
  | zero =>
      cases h
      exact ⟨[], o, .singleton o, rfl, rfl⟩
  | succ levels ih =>
      have ho := hall o .refl
      rcases cases_of_resolveWithin_succ h with
        ⟨what, hmem, -⟩ | ⟨home, wanted, hcites, hlookup⟩ | ⟨q, hleads, hq⟩
      · exact absurd hmem (ho.flawless what)
      · obtain ⟨found, hfound⟩ := ho.found home wanted hcites
        rw [hlookup] at hfound
        cases hfound
      · obtain ⟨rest, p, hchain, hp, hfault⟩ := ih (fun r hr => hall r (.head hleads hr)) hq
        exact ⟨_ :: rest, p, List.isChain_cons_cons.2 ⟨hleads, hchain⟩, hp, hfault⟩

/-- A chain from a value that is reached is the end of a chain from where it was
reached. -/
theorem exists_chain_of_reach (h : ReflTransGen (s.LeadsTo g) o p) {n : Nat}
    (hp : ∃ rest, List.IsChain (s.LeadsTo g) (p :: rest) ∧ n ≤ rest.length) :
    ∃ rest, List.IsChain (s.LeadsTo g) (o :: rest) ∧ n ≤ rest.length := by
  induction h using ReflTransGen.head_induction_on with
  | refl => exact hp
  | @head o q hleads _ ih =>
      obtain ⟨rest, hchain, hn⟩ := ih
      exact ⟨q :: rest, List.isChain_cons_cons.2 ⟨hleads, hchain⟩, Nat.le_succ_of_le hn⟩

theorem exists_chain_of_circle (h : TransGen (s.LeadsTo g) p p) (n : Nat) :
    ∃ rest, List.IsChain (s.LeadsTo g) (p :: rest) ∧ n ≤ rest.length := by
  induction n with
  | zero => exact ⟨[], .singleton p, Nat.zero_le _⟩
  | succ n ih =>
      obtain ⟨q, hleads, hreach⟩ := TransGen.head'_iff.1 h
      obtain ⟨rest, hchain, hn⟩ := exists_chain_of_reach hreach ih
      exact ⟨q :: rest, List.isChain_cons_cons.2 ⟨hleads, hchain⟩, Nat.succ_le_succ hn⟩

/-- A value resolves just if no chain of references from it is longer than the
limit, provided that nothing is wrong with any value it leads to; else the fault
is the limit, and names a value that stands behind so many others in a chain.
Whatever is wrong, a value that leads into a circle does not resolve. -/
theorem resolve_of_chains {d : Dialect} {g : Grammar} (hg : d.interpolation.grammar? = some g)
    (s : Store) (o : Occurrence) :
    ((∀ p, ReflTransGen (s.LeadsTo g) o p → s.Supports g p) →
      ((∃ out, s.resolve d o.name o.key o.value = .ok out) ↔
        ∀ rest, List.IsChain (s.LeadsTo g) (o :: rest) → (o :: rest).length ≤ d.depthLimit) ∧
      ∀ fault, s.resolve d o.name o.key o.value = .error fault →
        ∃ rest p, List.IsChain (s.LeadsTo g) (o :: rest) ∧ (o :: rest)[d.depthLimit]? = some p ∧
          fault = .tooDeep p.name p.key d.depthLimit) ∧
    ((∃ p, ReflTransGen (s.LeadsTo g) o p ∧ TransGen (s.LeadsTo g) p p) →
      ∃ fault, s.resolve d o.name o.key o.value = .error fault) := by
  have hresolve : s.resolve d o.name o.key o.value =
      s.resolveWithin g d.depthLimit d.depthLimit o.name o.key o.value := by
    rw [resolve, resolveAt, hg]
    rfl
  rw [hresolve]
  constructor
  · intro hall
    refine ⟨⟨?_, fun hshort => ?_⟩, fun fault h => exists_chain_of_resolveWithin hall h⟩
    · rintro ⟨out, hout⟩ rest hchain
      exact length_le_of_resolveWithin hout hchain
    · cases h : s.resolveWithin g d.depthLimit d.depthLimit o.name o.key o.value with
      | ok out => exact ⟨out, rfl⟩
      | error fault =>
          obtain ⟨rest, p, hchain, hp, -⟩ := exists_chain_of_resolveWithin hall h
          obtain ⟨hlength, -⟩ := List.getElem?_eq_some_iff.1 hp
          exact absurd (hshort rest hchain) (Nat.not_le.2 hlength)
  · rintro ⟨p, hreach, hcircle⟩
    cases h : s.resolveWithin g d.depthLimit d.depthLimit o.name o.key o.value with
    | error fault => exact ⟨fault, rfl⟩
    | ok out =>
        obtain ⟨rest, hchain, hn⟩ :=
          exists_chain_of_reach hreach (exists_chain_of_circle hcircle d.depthLimit)
        exact absurd (length_le_of_resolveWithin h hchain) (by omega)

/-- A value with one reference to a value and one to a key without a value. -/
def loaded : Occurrence := ⟨"web".toList, "load".toList, "%(BASE)s of %(flag)s".toList⟩

/-- The value it refers to, which is inherited and has no references. -/
def based : Occurrence := ⟨"web".toList, "base".toList, "100%%".toList⟩

/-- A value with a reference to itself. -/
def looped : Occurrence := ⟨"web".toList, "path".toList, "%(flag)s/%(path)s".toList⟩

theorem supports_of_loaded (p : Occurrence) (h : ReflTransGen (circular.LeadsTo .basic) loaded p) :
    circular.Supports .basic p := by
  have hload : Grammar.pieces .basic loaded.value =
      [.reference none "base".toList, .literal ' ', .literal 'o', .literal 'f', .literal ' ',
        .reference none "flag".toList] := by decide +kernel
  have hbase : Grammar.pieces .basic based.value =
      [.literal '1', .literal '0', .literal '0', .literal '%'] := by decide +kernel
  have hfound : circular.lookup "web".toList "base".toList = .ok (some based.value) := rfl
  have hflag : circular.lookup "web".toList "flag".toList = .ok none := rfl
  have hcites : ∀ home wanted, loaded.Cites .basic home wanted →
      home = "web".toList ∧ (wanted = "base".toList ∨ wanted = "flag".toList) := by
    rintro home wanted ⟨target, hmem, rfl⟩
    rw [hload] at hmem
    rcases (by simpa using hmem) with ⟨rfl, rfl⟩ | ⟨rfl, rfl⟩
    · exact ⟨rfl, .inl rfl⟩
    · exact ⟨rfl, .inr rfl⟩
  have hnone : ∀ home wanted, ¬based.Cites .basic home wanted := by
    rintro home wanted ⟨target, hmem, -⟩
    rw [hbase] at hmem
    simp at hmem
  rcases h.cases_head with rfl | ⟨q, ⟨hcited, hlookup⟩, hrest⟩
  · refine ⟨by simp [hload], fun home wanted h => ?_⟩
    obtain ⟨rfl, rfl | rfl⟩ := hcites home wanted h
    · exact ⟨_, hfound⟩
    · exact ⟨_, hflag⟩
  · obtain ⟨name, key, value⟩ := q
    obtain ⟨rfl, rfl | rfl⟩ := hcites name key hcited
    · obtain rfl : based.value = value := Option.some.inj (Except.ok.inj (hfound.symm.trans hlookup))
      rcases hrest.cases_head with rfl | ⟨p, hp, -⟩
      · exact ⟨by simp [hbase], fun home wanted h => absurd h (hnone home wanted)⟩
      · exact absurd hp.1 (hnone _ _)
    · cases hflag.symm.trans hlookup

theorem resolve_of_chains_circular :
    Dialect.standard.interpolation.grammar? = some .basic ∧
      (∀ p, ReflTransGen (circular.LeadsTo .basic) loaded p → circular.Supports .basic p) ∧
      (∃ rest p, List.IsChain (circular.LeadsTo .basic) (loaded :: rest) ∧
        (loaded :: rest)[1]? = some p ∧
        circular.resolve { depthLimit := 1 } loaded.name loaded.key loaded.value =
          .error (.tooDeep p.name p.key 1)) ∧
      ∀ limit, ∃ fault, circular.resolve { depthLimit := limit } looped.name looped.key
        looped.value = .error fault := by
  have hdeep : circular.resolve { depthLimit := 1 } loaded.name loaded.key loaded.value =
      .error (.tooDeep "web".toList "base".toList 1) := by decide +kernel
  have hpieces : Grammar.pieces .basic looped.value =
      [.reference none "flag".toList, .literal '/', .reference none "path".toList] := by
    decide +kernel
  have hcircle : circular.LeadsTo .basic looped looped := by
    refine ⟨⟨none, ?_, rfl⟩, rfl⟩
    rw [hpieces]
    simp [looped]
  refine ⟨rfl, supports_of_loaded, ?_, fun limit => ?_⟩
  · have hchains := resolve_of_chains (d := { depthLimit := 1 }) rfl circular loaded
    obtain ⟨rest, p, hchain, hp, hfault⟩ := (hchains.1 supports_of_loaded).2 _ hdeep
    exact ⟨rest, p, hchain, hp, hfault ▸ hdeep⟩
  · have hchains := resolve_of_chains (d := { depthLimit := limit }) rfl circular looped
    exact hchains.2 ⟨looped, .refl, .single hcircle⟩

end Store

end Ini
