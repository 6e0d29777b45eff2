import Ini.Proofs.Text.Cut
import Ini.Proofs.Traversal
import Ini.Resolve

/-!
# What a value comes to

Cutting a value into pieces and settling them is a function with a recursion on
the levels that are left. What it computes is said here without either. `Scans`
is the scan as a set of rules, with the end of a reference where its closing
brackets first stand. `Resolves` gives the outcome of a value at a depth: the
texts of all pieces one after the other, if each has one, and else the fault of
the first that has none, whether that piece is a flaw, a reference that leads
nowhere or one whose value fails further down.

The rules may be read over any store, circles included, for a derivation is
finite. They describe the function exactly, so each value has one outcome at
each depth, and a value that runs into a circle has the limit as its outcome
unless a fault stands before it.
-/

namespace Ini

open Text

/-! ## The scan -/

/-- A text around a mark that stands nowhere further left in it. -/
structure Leftmost (mark before after text : Text) : Prop where
  append_eq : before ++ mark ++ after = text
  length_le : ∀ front, front ++ mark <+: text → before.length ≤ front.length

namespace Grammar

/-- What the text between the brackets refers to: a section, if it names one,
and a key. -/
inductive Names (g : Grammar) (inner : Text) : Option Text → Text → Prop
  | own (h : g.qualified = true → ':' ∉ inner) : Names g inner none inner.fold
  | foreign {target wanted : Text} (hqualified : g.qualified = true) (htarget : ':' ∉ target)
      (h : target ++ ':' :: wanted = inner) : Names g inner (some target) wanted.fold

/-- The pieces of what is left of a value, and what was left of it when the last
reference or doubled sigil ended. -/
inductive Scans (g : Grammar) : Text → Text → List Piece → Prop
  | nil {since : Text} : Scans g since [] []
  | literal {since rest : Text} {c : Char} {pieces : List Piece} (hc : c ≠ g.sigil)
      (h : Scans g since rest pieces) : Scans g since (c :: rest) (.literal c :: pieces)
  | doubled {since rest : Text} {pieces : List Piece} (h : Scans g rest rest pieces) :
      Scans g since (g.sigil :: g.sigil :: rest) (.literal g.sigil :: pieces)
  | reference {since body inner rest key : Text} {target : Option Text} {pieces : List Piece}
      (hbody : Leftmost g.closing inner rest body) (hnames : g.Names inner target key)
      (h : Scans g rest rest pieces) :
      Scans g since (g.sigil :: g.opening :: body) (.reference target key :: pieces)
  | unclosed {since body : Text} (hbody : ¬g.closing <:+: body) :
      Scans g since (g.sigil :: g.opening :: body) [.flaw (.unclosed since)]
  | dangling {since rest : Text} (hsigil : rest.head? ≠ some g.sigil)
      (hopening : rest.head? ≠ some g.opening) :
      Scans g since (g.sigil :: rest) [.flaw (.dangling g.sigil g.opening since)]

/-- A reference can be told from a doubled sigil, and its end can be seen. -/
structure Lawful (g : Grammar) : Prop where
  closing_ne_nil : g.closing ≠ []
  opening_ne_sigil : g.opening ≠ g.sigil

theorem lawful_of_grammar? {mode : Interpolation} {g : Grammar} (h : mode.grammar? = some g) :
    g.Lawful := by
  cases mode with
  | off => cases h
  | basic =>
      cases h
      exact ⟨by decide, by decide⟩
  | extended =>
      cases h
      exact ⟨by decide, by decide⟩

variable {g : Grammar} {since text body inner rest key : Text} {target : Option Text}
  {pieces : List Piece}

theorem leftmost_of_cut_eq_some {mark : Text} {found : Cut} (hmark : mark ≠ [])
    (h : cut [mark] text = some found) : Leftmost mark found.before found.after text := by
  have heq := cut_append h
  rw [List.mem_singleton.1 (mem_of_cut_eq_some h)] at heq
  exact ⟨heq, fun front hfront => length_cut_before_le h (List.mem_singleton_self mark) hmark hfront⟩

theorem cut_eq_some_of_leftmost {mark before after : Text} (hmark : mark ≠ [])
    (h : Leftmost mark before after text) : cut [mark] text = some ⟨before, mark, after⟩ := by
  refine cut_eq_some_iff.2 ⟨h.append_eq, hmark, fun place hplace other hmem _ hpre => ?_,
    [], [], rfl, List.forall_mem_nil _⟩
  rw [List.mem_singleton.1 hmem] at hpre
  have hfront : text.take place ++ mark <+: text.take place ++ text.drop place :=
    (List.prefix_append_right_inj _).2 hpre
  rw [List.take_append_drop] at hfront
  have hle : before.length ≤ place := (h.length_le _ hfront).trans (List.length_take_le ..)
  exact absurd hplace (Nat.not_lt.2 hle)

theorem reference_eq_iff :
    g.reference inner = .reference target key ↔ g.Names inner target key := by
  have hsingle : ∀ mark ∈ [[':']], mark.length = 1 := by simp
  constructor
  · intro h
    unfold reference at h
    split at h
    · next hqualified =>
        split at h
        · next found hcut =>
            cases h
            have hfirst := leftmost_of_cut_eq_some (by simp) hcut
            refine .foreign hqualified ?_ (by simpa using hfirst.append_eq)
            intro hmem
            exact not_mem_marks_of_mem_before hcut hmem (by simp)
        · next hcut =>
            cases h
            refine .own fun _ hmem => ?_
            exact (cut_eq_none_iff_of_single hsingle).1 hcut ':' hmem (by simp)
    · next hqualified =>
        cases h
        exact .own fun h => absurd h hqualified
  · intro h
    cases h with
    | own hplain =>
        unfold reference
        split
        · next hqualified =>
            have hcut : cut [[':']] inner = none := by
              rw [cut_eq_none_iff_of_single hsingle]
              intro c hc hmem
              obtain rfl : c = ':' := by simpa using hmem
              exact hplain hqualified hc
            simp only [hcut]
        · rfl
    | @foreign target wanted hqualified htarget hinner =>
        have hfree : ∀ b ∈ target, [b] ∉ [[':']] := by
          intro b hb hmem
          obtain rfl : b = ':' := by simpa using hmem
          exact htarget hb
        have hcut : cut [[':']] (target ++ ':' :: wanted) = some ⟨target, [':'], wanted⟩ :=
          cut_append_cons hsingle hfree (List.mem_singleton_self [':'])
        rw [reference, if_pos hqualified, ← hinner, hcut]

theorem exists_names (g : Grammar) (inner : Text) :
    ∃ target key, g.reference inner = .reference target key ∧ g.Names inner target key := by
  have hshape : ∃ target key, g.reference inner = .reference target key := by
    unfold reference
    split
    · split
      · exact ⟨_, _, rfl⟩
      · exact ⟨_, _, rfl⟩
    · exact ⟨_, _, rfl⟩
  obtain ⟨target, key, h⟩ := hshape
  exact ⟨target, key, h, reference_eq_iff.1 h⟩

theorem piecesSince_literal {c : Char} (hc : c ≠ g.sigil) (since rest : Text) :
    g.piecesSince since (c :: rest) = .literal c :: g.piecesSince since rest := by
  rw [piecesSince.eq_def]
  exact if_pos hc

theorem piecesSince_doubled (g : Grammar) (since rest : Text) :
    g.piecesSince since (g.sigil :: g.sigil :: rest) =
      .literal g.sigil :: g.piecesSince rest rest := by
  rw [piecesSince, if_neg (by simp), if_pos rfl]

theorem piecesSince_reference (hg : g.opening ≠ g.sigil) {found : Cut}
    (hcut : cut [g.closing] body = some found) (since : Text) :
    g.piecesSince since (g.sigil :: g.opening :: body) =
      g.reference found.before :: g.piecesSince found.after found.after := by
  rw [piecesSince, if_neg (by simp), if_neg hg, if_pos rfl]
  split
  · next other hother =>
      rw [hcut] at hother
      cases hother
      rfl
  · next hnone =>
      rw [hcut] at hnone
      cases hnone

theorem piecesSince_unclosed (hg : g.opening ≠ g.sigil) (hcut : cut [g.closing] body = none)
    (since : Text) :
    g.piecesSince since (g.sigil :: g.opening :: body) = [.flaw (.unclosed since)] := by
  rw [piecesSince, if_neg (by simp), if_neg hg, if_pos rfl]
  split
  · next other hother =>
      rw [hcut] at hother
      cases hother
  · rfl

theorem piecesSince_dangling (hsigil : rest.head? ≠ some g.sigil)
    (hopening : rest.head? ≠ some g.opening) (since : Text) :
    g.piecesSince since (g.sigil :: rest) = [.flaw (.dangling g.sigil g.opening since)] := by
  cases rest with
  | nil => rw [piecesSince, if_neg (by simp)]
  | cons c rest =>
      have hs : c ≠ g.sigil := by simpa using hsigil
      have ho : c ≠ g.opening := by simpa using hopening
      rw [piecesSince, if_neg (by simp), if_neg hs, if_neg ho]

theorem Lawful.scans_piecesSince (hg : g.Lawful) (since text : Text) :
    g.Scans since text (g.piecesSince since text) := by
  fun_induction piecesSince g since text with
  | case1 since => exact .nil
  | case2 since c rest hc ih => exact .literal hc ih
  | case3 since c hc =>
      rw [not_not.1 hc]
      exact .dangling (by simp) (by simp)
  | case4 since c hc body ih =>
      rw [not_not.1 hc]
      exact .doubled ih
  | case5 since c hc body found hcut _ _ ih =>
      obtain ⟨target, key, href, hnames⟩ := g.exists_names found.before
      rw [not_not.1 hc, href]
      exact .reference (leftmost_of_cut_eq_some hg.closing_ne_nil hcut) hnames ih
  | case6 since c hc body hcut =>
      rw [not_not.1 hc]
      exact .unclosed (cut_eq_none_iff.1 hcut _ (List.mem_singleton_self _) hg.closing_ne_nil)
  | case7 since c hc next body hsigil hopening =>
      rw [not_not.1 hc]
      exact .dangling (by simpa using hsigil) (by simpa using hopening)

/-- The scan leaves no choice. -/
theorem Scans.eq_piecesSince (hg : g.Lawful) (h : g.Scans since text pieces) :
    pieces = g.piecesSince since text := by
  induction h with
  | nil => rw [piecesSince]
  | literal hc _ ih => rw [piecesSince_literal hc, ih]
  | doubled _ ih => rw [piecesSince_doubled, ih]
  | reference hbody hnames _ ih =>
      have hcut := cut_eq_some_of_leftmost hg.closing_ne_nil hbody
      rw [piecesSince_reference hg.opening_ne_sigil hcut, reference_eq_iff.2 hnames, ih]
  | unclosed hbody =>
      rw [piecesSince_unclosed hg.opening_ne_sigil]
      rw [cut_eq_none_iff]
      intro mark hmark _
      rw [List.mem_singleton.1 hmark]
      exact hbody
  | dangling hsigil hopening => rw [piecesSince_dangling hsigil hopening]

theorem Lawful.scans_iff (hg : g.Lawful) : g.Scans text text pieces ↔ pieces = g.pieces text := by
  constructor
  · exact fun h => h.eq_piecesSince hg
  · intro h
    rw [h]
    exact hg.scans_piecesSince text text

end Grammar

/-! ## The outcome -/

section

variable (s : Store) (g : Grammar) (limit : Nat)

mutual

/-- The outcome of the value of a key in a section, met at some depth. -/
inductive Resolves : Nat → Text → Text → Text → Except Fault Text → Prop
  | tooDeep {depth : Nat} {name key raw : Text} (h : limit < depth) :
      Resolves depth name key raw (.error (.tooDeep name key limit))
  | expanded {depth : Nat} {name key raw : Text} {pieces : List Piece} {texts : List Text}
      (hdepth : depth ≤ limit) (hscan : g.Scans raw raw pieces)
      (h : Yields depth name key pieces texts) : Resolves depth name key raw (.ok texts.flatten)
  | failed {depth : Nat} {name key raw : Text} {front back : List Piece} {piece : Piece}
      {texts : List Text} {fault : Fault} (hdepth : depth ≤ limit)
      (hscan : g.Scans raw raw (front ++ piece :: back)) (hfront : Yields depth name key front texts)
      (h : Stands depth name key piece (.error fault)) : Resolves depth name key raw (.error fault)

/-- The texts of pieces that each have one. -/
inductive Yields : Nat → Text → Text → List Piece → List Text → Prop
  | nil {depth : Nat} {name key : Text} : Yields depth name key [] []
  | cons {depth : Nat} {name key text : Text} {piece : Piece} {pieces : List Piece}
      {texts : List Text} (h : Stands depth name key piece (.ok text))
      (hrest : Yields depth name key pieces texts) :
      Yields depth name key (piece :: pieces) (text :: texts)

/-- The outcome of a piece of the value of a key in a section. -/
inductive Stands : Nat → Text → Text → Piece → Except Fault Text → Prop
  | literal {depth : Nat} {name key : Text} {c : Char} :
      Stands depth name key (.literal c) (.ok [c])
  | flaw {depth : Nat} {name key : Text} {what : ReferenceFlaw} :
      Stands depth name key (.flaw what) (.error (.badReference name key what))
  | missing {depth : Nat} {name key wanted : Text} {target : Option Text} {fault : Fault}
      (h : s.lookup (target.getD name) wanted = .error fault) :
      Stands depth name key (.reference target wanted) (.error fault)
  | absent {depth : Nat} {name key wanted : Text} {target : Option Text}
      (h : s.lookup (target.getD name) wanted = .ok none) :
      Stands depth name key (.reference target wanted) (.ok [])
  | found {depth : Nat} {name key wanted value : Text} {target : Option Text}
      {outcome : Except Fault Text} (h : s.lookup (target.getD name) wanted = .ok (some value))
      (hvalue : Resolves (depth + 1) (target.getD name) wanted value outcome) :
      Stands depth name key (.reference target wanted) outcome

end

end

namespace Piece

variable {name key out : Text} {refer : Text → Text → Except Fault Text} {pieces : List Piece}
  {fault : Fault}

theorem settleAll_eq_mapM (name key : Text) (refer : Text → Text → Except Fault Text)
    (pieces : List Piece) :
    settleAll name key refer pieces =
      (pieces.mapM (settle name key refer)).map List.flatten := by
  induction pieces with
  | nil => rfl
  | cons piece rest ih =>
      rw [settleAll, ih]
      cases hpiece : settle name key refer piece with
      | error fault =>
          rw [Traversal.mapM_cons_of_error hpiece]
          rfl
      | ok text =>
          rw [Traversal.mapM_cons_of_ok hpiece]
          cases rest.mapM (settle name key refer) <;> rfl

theorem settleAll_eq_ok_iff :
    settleAll name key refer pieces = .ok out ↔
      ∃ texts, List.Forall₂ (fun piece text => settle name key refer piece = .ok text) pieces texts ∧
        texts.flatten = out := by
  rw [settleAll_eq_mapM, Traversal.map_eq_ok_iff]
  simp only [Traversal.mapM_eq_ok_iff]

/-- The first piece to fail decides the fault. -/
theorem settleAll_eq_error_iff :
    settleAll name key refer pieces = .error fault ↔
      ∃ front piece back texts, pieces = front ++ piece :: back ∧
        List.Forall₂ (fun piece text => settle name key refer piece = .ok text) front texts ∧
        settle name key refer piece = .error fault := by
  rw [settleAll_eq_mapM, Traversal.map_eq_error_iff, Traversal.mapM_eq_error_iff]

end Piece

/-! ## The function and the rules -/

/-- What a reference stands for with so many levels left. -/
def Store.referWithin (s : Store) (g : Grammar) (limit levels : Nat) (home wanted : Text) :
    Except Fault Text := do
  match ← s.lookup home wanted with
  | none => return []
  | some value => s.resolveWithin g limit levels home wanted value

theorem Store.resolveWithin_succ (s : Store) (g : Grammar) (limit levels : Nat)
    (name key raw : Text) :
    s.resolveWithin g limit (levels + 1) name key raw =
      Piece.settleAll name key (s.referWithin g limit levels) (g.pieces raw) := rfl

section

variable {s : Store} {g : Grammar} {limit levels depth : Nat} {name key raw : Text}
  {outcome : Except Fault Text}

theorem stands_iff
    (ih : ∀ name key raw outcome, s.resolveWithin g limit levels name key raw = outcome ↔
      Resolves s g limit (depth + 1) name key raw outcome) {piece : Piece} :
    Stands s g limit depth name key piece outcome ↔
      piece.settle name key (s.referWithin g limit levels) = outcome := by
  constructor
  · intro h
    cases h with
    | literal => rfl
    | flaw => rfl
    | missing hlookup =>
        rw [Piece.settle, Store.referWithin, hlookup]
        rfl
    | absent hlookup =>
        rw [Piece.settle, Store.referWithin, hlookup]
        rfl
    | found hlookup hvalue =>
        rw [Piece.settle, Store.referWithin, hlookup]
        exact (ih _ _ _ _).2 hvalue
  · intro h
    subst h
    cases piece with
    | literal c => exact .literal
    | flaw what => exact .flaw
    | reference target wanted =>
        rw [Piece.settle, Store.referWithin]
        cases hlookup : s.lookup (target.getD name) wanted with
        | error fault => exact .missing hlookup
        | ok found =>
            cases found with
            | none => exact .absent hlookup
            | some value => exact .found hlookup ((ih _ _ _ _).1 rfl)

theorem yields_iff {settle : Piece → Except Fault Text}
    (h : ∀ piece outcome, Stands s g limit depth name key piece outcome ↔ settle piece = outcome)
    {pieces : List Piece} {texts : List Text} :
    Yields s g limit depth name key pieces texts ↔
      List.Forall₂ (fun piece text => settle piece = .ok text) pieces texts := by
  induction pieces generalizing texts with
  | nil =>
      rw [List.forall₂_nil_left_iff]
      constructor
      · intro h
        cases h
        rfl
      · intro h
        rw [h]
        exact .nil
  | cons piece rest ih =>
      constructor
      · intro hyields
        cases hyields with
        | cons hpiece hrest => exact .cons ((h piece _).1 hpiece) (ih.1 hrest)
      · intro hforall
        cases hforall with
        | cons hpiece hrest => exact .cons ((h piece _).2 hpiece) (ih.2 hrest)

theorem resolveWithin_eq_iff (hg : g.Lawful) (hlevels : levels = limit + 1 - depth) :
    s.resolveWithin g limit levels name key raw = outcome ↔
      Resolves s g limit depth name key raw outcome := by
  -- A reference takes one of the levels that are left and goes one deeper, so
  -- the sum of both stays what it is.
  induction levels generalizing depth name key raw outcome with
  | zero =>
      have hdeep : limit < depth := by omega
      rw [Store.resolveWithin]
      constructor
      · intro h
        rw [← h]
        exact .tooDeep hdeep
      · intro h
        cases h with
        | tooDeep => rfl
        | expanded hdepth => omega
        | failed hdepth => omega
  | succ levels ih =>
      have hdepth : depth ≤ limit := by omega
      have hnext : levels = limit + 1 - (depth + 1) := by omega
      have hstands : ∀ piece outcome, Stands s g limit depth name key piece outcome ↔
          piece.settle name key (s.referWithin g limit levels) = outcome :=
        fun _ _ => stands_iff fun _ _ _ _ => ih hnext
      rw [Store.resolveWithin_succ]
      cases outcome with
      | ok out =>
          rw [Piece.settleAll_eq_ok_iff]
          constructor
          · intro h
            obtain ⟨texts, hforall, rfl⟩ := h
            exact .expanded hdepth (hg.scans_iff.2 rfl) ((yields_iff hstands).2 hforall)
          · intro h
            cases h with
            | expanded _ hscan h =>
                rw [hg.scans_iff] at hscan
                exact ⟨_, (yields_iff hstands).1 (hscan ▸ h), rfl⟩
      | error fault =>
          rw [Piece.settleAll_eq_error_iff]
          constructor
          · intro h
            obtain ⟨front, piece, back, texts, heq, hforall, hfault⟩ := h
            exact .failed hdepth (hg.scans_iff.2 heq.symm) ((yields_iff hstands).2 hforall)
              ((hstands _ _).2 hfault)
          · intro h
            cases h with
            | tooDeep h => omega
            | failed _ hscan hfront h =>
                rw [hg.scans_iff] at hscan
                exact ⟨_, _, _, _, hscan.symm, (yields_iff hstands).1 hfront, (hstands _ _).1 h⟩

end

/-- Resolving a value computes the outcome that the rules give it. -/
theorem Store.resolveAt_eq_iff {d : Dialect} {g : Grammar}
    (hg : d.interpolation.grammar? = some g) (s : Store) (depth : Nat) (name key raw : Text)
    (outcome : Except Fault Text) :
    s.resolveAt d depth name key raw = outcome ↔
      Resolves s g d.depthLimit depth name key raw outcome := by
  rw [Store.resolveAt, hg]
  exact resolveWithin_eq_iff (Grammar.lawful_of_grammar? hg) rfl

/-- A section with a circle, reached over a value that is found. -/
def Store.circular : Store where
  defaultName := defaultSectionName
  defaults := [("base".toList, some "100%%".toList), ("flag".toList, none)]
  sections :=
    [("web".toList,
      [("path".toList, some "%(flag)s/%(path)s".toList),
        ("load".toList, some "%(BASE)s of %(flag)s".toList)])]

theorem Store.resolveAt_eq_iff_circular :
    Dialect.standard.interpolation.grammar? = some .basic ∧
      Resolves .circular .basic 10 1 "web".toList "x".toList "%(load)s)s".toList
        (.ok "100% of )s".toList) ∧
      Resolves .circular .basic 10 1 "web".toList "x".toList "%(path)s%".toList
        (.error (.tooDeep "web".toList "path".toList 10)) := by
  have hg : Dialect.standard.interpolation.grammar? = some .basic := rfl
  have hfound : circular.resolveAt .standard 1 "web".toList "x".toList "%(load)s)s".toList =
      .ok "100% of )s".toList := by decide +kernel
  have hcircle : circular.resolveAt .standard 1 "web".toList "x".toList "%(path)s%".toList =
      .error (.tooDeep "web".toList "path".toList 10) := by decide +kernel
  exact ⟨hg, (resolveAt_eq_iff hg _ _ _ _ _ _).1 hfound, (resolveAt_eq_iff hg _ _ _ _ _ _).1 hcircle⟩

end Ini
