import Ini.Proofs.Reach

/-!
# Where a fault is laid

A fault comes up through all the values that were being resolved when it was met,
and each of them may be a value of another section. What it names is the innermost
one. A flaw is laid to the value that has it, in the section where that value was
met, which is the section whose default it may be. A key that is not there is laid
to the section in which it was looked for. So each fault can be found again without
resolving anything: follow references from the value to where it is laid, and look.

A flaw shows the rest of the value in which it stands. That rest begins where the
last reference or doubled sigil before it ends, so the first sigil in it is the one
that is wrong (`Grammar.Breaks`).
-/

namespace Ini

open Relation

theorem Leftmost.of_isPrefix {mark before after text done : Text}
    (h : Leftmost mark before after text) (hdone : done <+: after) :
    Leftmost mark before done (before ++ mark ++ done) := by
  refine ⟨rfl, fun front hfront => h.length_le front (hfront.trans ?_)⟩
  rw [← h.append_eq]
  exact (List.prefix_append_right_inj _).2 hdone

namespace Grammar

variable {g : Grammar} {since text plain : Text} {pieces : List Piece} {what : ReferenceFlaw}

/-- A text in which every sigil is doubled or starts a reference, and which ends
with one of those or is empty. -/
inductive Complete (g : Grammar) : Text → Prop
  | nil : Complete g []
  | doubled {plain rest : Text} (hplain : g.sigil ∉ plain) (h : Complete g rest) :
      Complete g (plain ++ g.sigil :: g.sigil :: rest)
  | reference {plain inner rest body : Text} (hplain : g.sigil ∉ plain)
      (hbody : Leftmost g.closing inner rest body) (h : Complete g rest) :
      Complete g (plain ++ g.sigil :: g.opening :: body)

/-- What follows a sigil makes neither a doubled sigil of it nor a reference. -/
inductive Offends (g : Grammar) : Text → ReferenceFlaw → Prop
  | dangling {after rest : Text} (hsigil : after.head? ≠ some g.sigil)
      (hopening : after.head? ≠ some g.opening) :
      Offends g after (.dangling g.sigil g.opening rest)
  | unclosed {body rest : Text} (hbody : ¬g.closing <:+: body) :
      Offends g (g.opening :: body) (.unclosed rest)

/-- The first sigil of a value that is wrong stands between `plain` and `after`; all
before it is in order up to the end of `done`, and from there on the flaw shows it. -/
structure Breaks (g : Grammar) (value : Text) (what : ReferenceFlaw) (done plain after : Text) :
    Prop where
  complete : g.Complete done
  not_mem : g.sigil ∉ plain
  rest_eq : what.rest = plain ++ g.sigil :: after
  append_eq : done ++ what.rest = value
  offends : g.Offends after what

/-- What is left since the last reference or doubled sigil is text without a sigil
and what the scan has still before it. -/
theorem Scans.exists_breaks (h : g.Scans since text pieces) (hmem : .flaw what ∈ pieces)
    (hsince : since = plain ++ text) (hplain : g.sigil ∉ plain) :
    ∃ done plain after, g.Breaks since what done plain after := by
  induction h generalizing plain with
  | nil => cases hmem
  | @literal since rest c pieces hc _ ih =>
      -- A character that stands for itself ends no token: what is left since the last one
      -- does not change, and the character goes over to what is known of it.
      have hnext : g.sigil ∉ plain ++ [c] := by simp [hplain, Ne.symm hc]
      exact ih (by simpa using hmem) (by simpa using hsince) hnext
  | @doubled since rest pieces _ ih =>
      have hnone : g.sigil ∉ ([] : Text) := List.not_mem_nil
      obtain ⟨done, more, after, hbreaks⟩ := ih (by simpa using hmem) rfl hnone
      refine ⟨plain ++ g.sigil :: g.sigil :: done, more, after, .doubled hplain hbreaks.complete,
        hbreaks.not_mem, hbreaks.rest_eq, ?_, hbreaks.offends⟩
      rw [hsince, ← hbreaks.append_eq]
      simp
  | @reference since body inner rest key target pieces hbody _ _ ih =>
      have hnone : g.sigil ∉ ([] : Text) := List.not_mem_nil
      obtain ⟨done, more, after, hbreaks⟩ := ih (by simpa using hmem) rfl hnone
      have hdone := hbody.of_isPrefix ⟨_, hbreaks.append_eq⟩
      refine ⟨_, more, after, .reference hplain hdone hbreaks.complete, hbreaks.not_mem,
        hbreaks.rest_eq, ?_, hbreaks.offends⟩
      rw [hsince, ← hbody.append_eq, ← hbreaks.append_eq]
      simp
  | unclosed hbody =>
      obtain rfl := by simpa using hmem
      exact ⟨[], plain, _, .nil, hplain, hsince, rfl, .unclosed hbody⟩
  | dangling hsigil hopening =>
      obtain rfl := by simpa using hmem
      exact ⟨[], plain, _, .nil, hplain, hsince, rfl, .dangling hsigil hopening⟩

theorem Lawful.exists_breaks (hg : g.Lawful) (h : .flaw what ∈ g.pieces text) :
    ∃ done plain after, g.Breaks text what done plain after :=
  (hg.scans_piecesSince text text).exists_breaks h rfl List.not_mem_nil

end Grammar

theorem ReferenceFlaw.exists_message_eq (what : ReferenceFlaw) :
    ∃ words, what.message = words ++ what.rest.str ++ "'" := by
  cases what with
  | dangling => exact ⟨_, rfl⟩
  | unclosed => exact ⟨_, rfl⟩

/-- A fault in a reference shows, at the end of its text, the rest of the value. -/
theorem Fault.exists_message_eq (name key : Text) (what : ReferenceFlaw) :
    ∃ words, (badReference name key what).message = words ++ what.rest.str ++ "'" := by
  obtain ⟨words, hwords⟩ := what.exists_message_eq
  have hmessage : ∃ start, (badReference name key what).message = start ++ what.message := ⟨_, rfl⟩
  obtain ⟨start, hstart⟩ := hmessage
  refine ⟨start ++ words, ?_⟩
  rw [hstart, hwords]
  simp only [String.append_assoc]

namespace Store

variable {s : Store} {g : Grammar} {limit levels : Nat} {o p : Occurrence} {fault : Fault}

/-- Following references from a value comes to what this fault is laid to. -/
inductive Traced (s : Store) (g : Grammar) (limit : Nat) (o : Occurrence) : Fault → Prop
  | flaw {p : Occurrence} {what : ReferenceFlaw} (hreach : ReflTransGen (s.LeadsTo g) o p)
      (h : .flaw what ∈ g.pieces p.value) : Traced s g limit o (.badReference p.name p.key what)
  | missing {p : Occurrence} {home wanted : Text} {fault : Fault}
      (hreach : ReflTransGen (s.LeadsTo g) o p) (hcites : p.Cites g home wanted)
      (h : s.lookup home wanted = .error fault) : Traced s g limit o fault
  | tooDeep {p : Occurrence} (hreach : ReflTransGen (s.LeadsTo g) o p) :
      Traced s g limit o (.tooDeep p.name p.key limit)

theorem Traced.head (h : s.LeadsTo g o p) (hp : s.Traced g limit p fault) :
    s.Traced g limit o fault := by
  cases hp with
  | flaw hreach hflaw => exact .flaw (.head h hreach) hflaw
  | missing hreach hcites hlookup => exact .missing (.head h hreach) hcites hlookup
  | tooDeep hreach => exact .tooDeep (.head h hreach)

theorem traced_of_resolveWithin
    (h : s.resolveWithin g limit levels o.name o.key o.value = .error fault) :
    s.Traced g limit o fault := by
  induction levels generalizing o with
  | zero =>
      cases h
      exact .tooDeep .refl
  | succ levels ih =>
      rcases cases_of_resolveWithin_succ h with
        ⟨what, hmem, rfl⟩ | ⟨home, wanted, hcites, hlookup⟩ | ⟨p, hleads, hp⟩
      · exact .flaw .refl hmem
      · exact .missing .refl hcites hlookup
      · exact (ih hp).head hleads

/-- Of the values that references lead to, the first is the one they start from, and
the others are what was found under their keys. -/
theorem eq_or_lookup_of_reach (h : ReflTransGen (s.LeadsTo g) o p) :
    p = o ∨ TransGen (s.LeadsTo g) o p ∧ s.lookup p.name p.key = .ok (some p.value) := by
  rcases reflTransGen_iff_eq_or_transGen.1 h with heq | htrans
  · exact .inl heq
  · obtain ⟨q, -, hleads⟩ := TransGen.tail'_iff.1 htrans
    exact .inr ⟨htrans, hleads.2⟩

theorem traced_of_resolve {d : Dialect} (h : s.resolve d o.name o.key o.value = .error fault) :
    ∃ g, d.interpolation.grammar? = some g ∧ s.Traced g d.depthLimit o fault := by
  unfold resolve resolveAt at h
  split at h
  · cases h
  · next g hg => exact ⟨g, hg, traced_of_resolveWithin h⟩

/-- A value that fails to resolve fails for one of three reasons. It has a flaw, or
references lead from it to a value that has one, and what the fault shows is the rest
of that value from where it is wrong. Or one of those values has a reference that
finds nothing, and the fault is that of the look-up. Or one of them lies too deep. -/
theorem blame_of_resolve (d : Dialect) (s : Store) (o : Occurrence) :
    (∀ name key what, s.resolve d o.name o.key o.value = .error (.badReference name key what) →
      (∃ words, (Fault.badReference name key what).message = words ++ what.rest.str ++ "'") ∧
      ∃ g value, d.interpolation.grammar? = some g ∧
        (⟨name, key, value⟩ = o ∨ TransGen (s.LeadsTo g) o ⟨name, key, value⟩ ∧
          s.lookup name key = .ok (some value)) ∧
        ∃ done plain after, g.Breaks value what done plain after) ∧
    (∀ fault, s.resolve d o.name o.key o.value = .error fault → fault.isNotFound = true →
      ∃ home wanted, s.Reaches d.interpolation o home wanted ∧
        s.lookup home wanted = .error fault) ∧
    ∀ fault, s.resolve d o.name o.key o.value = .error fault →
      (∃ name key what, fault = .badReference name key what) ∨ fault.isNotFound = true ∨
        ∃ name key, fault = .tooDeep name key d.depthLimit := by
  refine ⟨fun name key what h => ⟨Fault.exists_message_eq name key what, ?_⟩, ?_, ?_⟩
  · obtain ⟨g, hg, htraced⟩ := traced_of_resolve h
    cases htraced with
    | @flaw p _ hreach hflaw =>
        have hbreaks := (Grammar.lawful_of_grammar? hg).exists_breaks hflaw
        exact ⟨g, p.value, hg, eq_or_lookup_of_reach hreach, hbreaks⟩
    | missing _ _ hlookup => cases isNotFound_of_lookup hlookup
  · intro fault h hfault
    obtain ⟨g, hg, htraced⟩ := traced_of_resolve h
    cases htraced with
    | flaw => cases hfault
    | missing hreach hcites hlookup => exact ⟨_, _, ⟨g, hg, _, hreach, hcites⟩, hlookup⟩
    | tooDeep => cases hfault
  · intro fault h
    obtain ⟨g, hg, htraced⟩ := traced_of_resolve h
    cases htraced with
    | flaw => exact .inl ⟨_, _, _, rfl⟩
    | missing _ _ hlookup => exact .inr (.inl (isNotFound_of_lookup hlookup))
    | tooDeep => exact .inr (.inr ⟨_, _, rfl⟩)

/-- A default with a flaw, met in a section that another one refers to. -/
def flawed : Store where
  defaultName := defaultSectionName
  defaults := [("tail".toList, some "$$1${flag}/$x".toList)]
  sections :=
    [("web".toList, [("path".toList, some "${db:Name}".toList)]),
      ("db".toList, [("name".toList, some "n${tail}".toList), ("flag".toList, none)])]

theorem blame_of_resolve_flawed :
    flawed.resolve { interpolation := .extended } path.name path.key "${db:Name}".toList =
        .error (.badReference "db".toList "tail".toList (.dangling '$' '{' "/$x".toList)) ∧
      (∃ g value, Interpolation.extended.grammar? = some g ∧
        flawed.lookup "db".toList "tail".toList = .ok (some value) ∧
        ∃ done plain after,
          g.Breaks value (.dangling '$' '{' "/$x".toList) done plain after) ∧
      flawed.resolve { interpolation := .extended } path.name path.key
          "${db:flag}${etc:Gone}${tail}".toList = .error (.noSection "etc".toList) ∧
      ∃ home wanted,
        flawed.Reaches .extended ⟨path.name, path.key, "${db:flag}${etc:Gone}${tail}".toList⟩
          home wanted ∧ flawed.lookup home wanted = .error (.noSection "etc".toList) := by
  have hflaw : flawed.resolve { interpolation := .extended } path.name path.key
      "${db:Name}".toList =
        .error (.badReference "db".toList "tail".toList (.dangling '$' '{' "/$x".toList)) := by
    decide +kernel
  have hgone : flawed.resolve { interpolation := .extended } path.name path.key
      "${db:flag}${etc:Gone}${tail}".toList = .error (.noSection "etc".toList) := by decide +kernel
  have hblame := blame_of_resolve { interpolation := .extended } flawed
    ⟨path.name, path.key, "${db:Name}".toList⟩
  have hblame' := blame_of_resolve { interpolation := .extended } flawed
    ⟨path.name, path.key, "${db:flag}${etc:Gone}${tail}".toList⟩
  obtain ⟨-, g, value, hg, hvalue, hbreaks⟩ := hblame.1 _ _ _ hflaw
  refine ⟨hflaw, ⟨g, value, hg, ?_, hbreaks⟩, hgone, hblame'.2.1 _ hgone rfl⟩
  rcases hvalue with heq | ⟨-, hlookup⟩
  · cases heq
  · exact hlookup

end Store

end Ini
