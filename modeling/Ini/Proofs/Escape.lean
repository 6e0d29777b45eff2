import Ini.Proofs.Stored

/-!
# Values that stand for themselves

Any text can be had as a value: with every sigil doubled it resolves to itself, in any
store and wherever it is met. And there is no other way to write it down without a
reference, for a value that has none and resolves is what it comes to with every sigil
doubled.

Both are read off the scan. A run of sigils is cut into pairs from the left, so a sigil
that was doubled neither starts a reference nor is left over, whatever bracket stands
behind it. Thus the pieces of a value are characters that stand for themselves just if
the value is their text escaped (`pieces_eq_map_literal_iff`).
-/

namespace Ini

namespace Grammar

variable {g : Grammar} {since raw text out : Text} {pieces : List Piece}

/-- The text with every sigil doubled. -/
def escape (g : Grammar) (text : Text) : Text :=
  text.flatMap fun c => if c = g.sigil then [c, c] else [c]

theorem escape_sigil (g : Grammar) (text : Text) :
    g.escape (g.sigil :: text) = g.sigil :: g.sigil :: g.escape text := by
  simp [escape]

theorem escape_cons {c : Char} (hc : c ≠ g.sigil) (text : Text) :
    g.escape (c :: text) = c :: g.escape text := by
  simp [escape, hc]

theorem piecesSince_escape (g : Grammar) (since text : Text) :
    g.piecesSince since (g.escape text) = text.map .literal := by
  induction text generalizing since with
  | nil => rw [escape, List.flatMap_nil, piecesSince, List.map_nil]
  | cons c rest ih =>
      by_cases hc : c = g.sigil
      · rw [hc, escape_sigil, piecesSince_doubled, ih, List.map_cons]
      · rw [escape_cons hc, piecesSince_literal hc, ih, List.map_cons]

theorem Scans.eq_escape (h : g.Scans since text pieces) (hout : out.map .literal = pieces) :
    text = g.escape out := by
  induction h generalizing out with
  | nil =>
      rw [List.map_eq_nil_iff.1 hout]
      rfl
  | literal hc _ ih =>
      obtain ⟨c, rest, rfl, hliteral, hrest⟩ := List.map_eq_cons_iff.1 hout
      cases hliteral
      rw [escape_cons hc, ih hrest]
  | doubled _ ih =>
      obtain ⟨c, rest, rfl, hliteral, hrest⟩ := List.map_eq_cons_iff.1 hout
      cases hliteral
      rw [escape_sigil, ih hrest]
  | reference | unclosed | dangling =>
      obtain ⟨c, rest, -, hliteral, -⟩ := List.map_eq_cons_iff.1 hout
      cases hliteral

theorem Lawful.pieces_eq_map_literal_iff (hg : g.Lawful) :
    g.pieces raw = text.map .literal ↔ raw = g.escape text := by
  constructor
  · exact fun h => (hg.scans_piecesSince raw raw).eq_escape h.symm
  · intro h
    rw [h]
    exact g.piecesSince_escape ..

end Grammar

namespace Piece

variable {name key out : Text} {refer : Text → Text → Except Fault Text} {pieces : List Piece}

theorem settleAll_map_literal (text : Text) :
    settleAll name key refer (text.map .literal) = .ok text := by
  induction text with
  | nil => rfl
  | cons c rest ih =>
      rw [List.map_cons, settleAll, ih]
      rfl

theorem eq_map_literal_of_settleAll (h : settleAll name key refer pieces = .ok out)
    (hplain : ∀ target wanted, .reference target wanted ∉ pieces) :
    pieces = out.map .literal := by
  obtain ⟨texts, hforall, rfl⟩ := settleAll_eq_ok_iff.1 h
  clear h
  induction hforall with
  | nil => rfl
  | @cons piece text rest texts hpiece _ ih =>
      have hrest := ih fun target wanted hmem => hplain target wanted (List.mem_cons_of_mem _ hmem)
      cases piece with
      | literal c =>
          cases hpiece
          rw [hrest]
          simp
      | reference target wanted => exact absurd List.mem_cons_self (hplain target wanted)
      | flaw what => cases hpiece

end Piece

namespace Store

variable {d : Dialect} {g : Grammar} {depth : Nat} {name key raw text : Text}

theorem resolveAt_escape (hg : d.interpolation.grammar? = some g) (hdepth : depth ≤ d.depthLimit)
    (s : Store) (name key text : Text) :
    s.resolveAt d depth name key (g.escape text) = .ok text := by
  have hlevels : d.depthLimit + 1 - depth = d.depthLimit - depth + 1 := by omega
  have hpieces : g.pieces (g.escape text) = text.map .literal := g.piecesSince_escape ..
  rw [resolveAt, hg]
  simp only [hlevels]
  rw [resolveWithin_succ, hpieces, Piece.settleAll_map_literal]

theorem eq_escape_of_resolveAt {s : Store} (hg : d.interpolation.grammar? = some g)
    (hplain : ∀ target wanted, .reference target wanted ∉ g.pieces raw)
    (h : s.resolveAt d depth name key raw = .ok text) : raw = g.escape text := by
  rw [resolveAt, hg] at h
  simp only at h
  cases hlevels : d.depthLimit + 1 - depth with
  | zero =>
      rw [hlevels] at h
      cases h
  | succ levels =>
      rw [hlevels, resolveWithin_succ] at h
      rw [← (Grammar.lawful_of_grammar? hg).pieces_eq_map_literal_iff]
      exact Piece.eq_map_literal_of_settleAll h hplain

end Store

namespace Config

variable {c : Config} {name : Text}

/-- The name of a section that is there is not empty, unless the defaults have no other. -/
theorem target_of_hasSection (h : c.store.Orderly c.dialect) (hname : c.hasSection name = true) :
    c.target name = name := by
  cases name with
  | cons => rfl
  | nil =>
      rw [hasSection, Bool.or_eq_true, decide_eq_true_eq] at hname
      rcases hname with hdefault | hmem
      · exact hdefault.symm
      · exact absurd rfl (h.named [] (Store.hasSection_iff_mem.1 hmem)).1

/-- Under either way of interpolation a text with every sigil doubled resolves to the
text, and a value that resolves to it without a reference is no other. So what is
stored in this form is what one gets back. -/
theorem get_set_escape {d : Dialect} {g : Grammar} (hg : d.interpolation.grammar? = some g) :
    (∀ (s : Store) (depth : Nat) (name key text : Text), depth ≤ d.depthLimit →
      s.resolveAt d depth name key (g.escape text) = .ok text) ∧
    (∀ (s : Store) (depth : Nat) (name key raw text : Text),
      (∀ target wanted, .reference target wanted ∉ g.pieces raw) →
      s.resolveAt d depth name key raw = .ok text → raw = g.escape text) ∧
    ∀ (c : Config) (name key text : Text), c.Reachable → c.dialect = d → 1 ≤ d.depthLimit →
      c.hasSection name = true →
        ∃ c', c.set name key (some (g.escape text)) = (c', .ok ()) ∧ c'.get name key = .ok text := by
  refine ⟨fun s depth name key text hdepth => Store.resolveAt_escape hg hdepth s name key text,
    fun s depth name key raw text => Store.eq_escape_of_resolveAt hg, ?_⟩
  intro c name key text hc hd hlimit hname
  subst hd
  have hsome : (c.store.entries? name).isSome = true := by rwa [← hasSection_eq hc.orderly]
  have hset : c.set name key (some (g.escape text)) =
      ({ c with store := c.store.put name key.fold (some (g.escape text)) }, .ok ()) := by
    rw [set_eq_ok_iff, target_of_hasSection hc.orderly hname]
    exact ⟨hsome, rfl⟩
  have hraw : ({ c with store := c.store.put name key.fold (some (g.escape text)) } : Config).getRaw
      name key = .ok (some (g.escape text)) :=
    (Store.lookup_put hsome ..).trans (if_pos ⟨rfl, .inl rfl⟩)
  refine ⟨_, hset, ?_⟩
  rw [get_of_getRaw hraw]
  exact Store.resolveAt_escape hg hlimit ..

/-- An odd number of sigils in front of a bracket, and of sigils at the end. -/
theorem get_set_escape_overriding :
    Dialect.standard.interpolation.grammar? = some .basic ∧
      Grammar.basic.escape "%%%(load)s%".toList = "%%%%%%(load)s%%".toList ∧
      Store.circular.resolveAt .standard 10 "web".toList "x".toList "%%%%%%(load)s%%".toList =
        .ok "%%%(load)s%".toList ∧
      (∀ target wanted, .reference target wanted ∉ Grammar.basic.pieces "5%%".toList) ∧
      Store.circular.resolveAt .standard 1 "web".toList "x".toList "5%%".toList =
        .ok "5%".toList ∧
      "5%%".toList = Grammar.basic.escape "5%".toList ∧
      overriding.Reachable ∧ overriding.hasSection "web".toList = true ∧
      ∃ c', overriding.set "web".toList "Load".toList (some "%%%%%%(load)s%%".toList) =
          (c', .ok ()) ∧ c'.get "web".toList "Load".toList = .ok "%%%(load)s%".toList := by
  have hg : Dialect.standard.interpolation.grammar? = some .basic := rfl
  have hescape : Grammar.basic.escape "%%%(load)s%".toList = "%%%%%%(load)s%%".toList := by decide
  have hpieces : Grammar.basic.pieces "5%%".toList = [.literal '5', .literal '%'] := by
    decide +kernel
  have hplain : ∀ target wanted, .reference target wanted ∉ Grammar.basic.pieces "5%%".toList := by
    rw [hpieces]
    simp
  have hrate : Store.circular.resolveAt .standard 1 "web".toList "x".toList "5%%".toList =
      .ok "5%".toList := by decide +kernel
  obtain ⟨hresolve, hunique, hset⟩ := get_set_escape hg
  refine ⟨hg, hescape, ?_, hplain, hrate, hunique _ _ _ _ _ _ hplain hrate, reachable_overriding,
    rfl, ?_⟩
  · rw [← hescape]
    exact hresolve _ _ _ _ _ (by decide)
  · rw [← hescape]
    exact hset overriding _ _ _ reachable_overriding rfl (by decide) rfl

end Config

end Ini
