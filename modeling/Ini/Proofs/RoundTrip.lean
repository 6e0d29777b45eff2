import Ini.Config.Query
import Ini.Proofs.Marked

/-!
# Decoding undoes encoding

In a plain dialect all marks are single characters and nothing opens a comment
inside a line. There a store can be written and read back as long as each key,
each row of a value and each name survives on its own: it is what trimming and
folding leave, and it does not look like something else.
-/

namespace Ini

open Text

/-- All marks are single characters that are not blank, and none opens a comment
inside a line. Blank lines do not end a value. -/
@[mk_iff]
structure Dialect.Plain (d : Dialect) : Prop where
  inlineMarks : d.inlineMarks = []
  delimiters_ne_nil : d.delimiters ≠ []
  delimiters : ∀ mark ∈ d.delimiters, mark.length = 1 ∧ mark.any isBlank = false
  commentMarks : ∀ mark ∈ d.commentMarks, mark.length = 1 ∧ mark.any isBlank = false
  blankLines : d.blankLinesInValues = true
  defaultSection : d.defaultSection ≠ unnamedSection

instance {d : Dialect} : Decidable d.Plain := decidable_of_iff' _ (Dialect.plain_iff d)

theorem Dialect.Plain.marked {d : Dialect} (hd : d.Plain) : d.Marked :=
  ⟨hd.delimiters_ne_nil, hd.delimiters, hd.commentMarks, by simp [hd.inlineMarks]⟩

theorem Dialect.Plain.quiet {d : Dialect} (hd : d.Plain) (opens : Bool) (text : Text) :
    Line.Quiet d.inlineMarks opens text := by
  rw [hd.inlineMarks]
  exact Line.quiet_of_nil opens text

theorem Dialect.Plain.readBack_eq_self {d : Dialect} (hd : d.Plain) (spaced : Bool)
    (value : Text) : d.readBack spaced value = value := by
  rw [hd.marked.readBack_eq_self_iff, hd.inlineMarks]
  simp [Line.startsComment, markAtStart]

namespace Store

variable {d : Dialect} {spaced : Bool} {s : Store}

theorem legible_of_view (hd : d.Plain) (hbracket : s.headed ≠ [] → ['['] ∉ d.commentMarks)
    (hnames : ∀ part ∈ s.view, '\n' ∉ part.1)
    (h : ∀ part ∈ s.view, ∀ pair ∈ part.2, Entry.Legible d spaced pair.1 pair.2) :
    s.Legible d spaced :=
  readAs_of_view hd.marked (fun part hpart =>
    ⟨hbracket (List.ne_nil_of_mem hpart), hnames part (mem_view_of_mem_headed hpart),
      hd.quiet ..⟩) h

end Store

/-- An entry that can be written and read back. -/
@[mk_iff]
structure Entry.Fits (d : Dialect) (key : Text) (value : Option Text) : Prop where
  keyFits : KeyFits d key
  head : key.head? ≠ some '['
  bare : value = none → d.bareKeys = true
  valueFits : ∀ text ∈ value, ValueFits d text

/-- A store that can be written and read back. -/
@[mk_iff]
structure Store.Fits (d : Dialect) (s : Store) : Prop extends s.Arranged d where
  newline : ∀ part ∈ s.view, '\n' ∉ part.1
  entries : ∀ part ∈ s.view, ∀ pair ∈ part.2, Entry.Fits d pair.1 pair.2

instance {d : Dialect} {key : Text} {value : Option Text} : Decidable (Entry.Fits d key value) :=
  decidable_of_iff' _ (Entry.fits_iff d key value)

instance {d : Dialect} {s : Store} : Decidable (s.Fits d) := decidable_of_iff' _ (Store.fits_iff d s)

theorem Entry.Fits.legible {d : Dialect} {key : Text} {value : Option Text} (hd : d.Plain)
    (h : Fits d key value) (spaced : Bool) : Legible d spaced key value := by
  cases value with
  | none =>
      obtain ⟨c, rest, rfl, -⟩ := exists_cons_of_trim_eq_self h.keyFits.trim_eq h.keyFits.ne_nil
      have hc : c ≠ '[' := by simpa using h.head
      exact readAs_bare hd.marked h.keyFits (h.bare rfl) (Dialect.Marked.headerName?_cons hc rest)
        (hd.quiet ..) spaced
  | some text =>
      have hread := readAs_valued hd.marked h.keyFits h.head (h.valueFits text rfl) (hd.quiet ..)
        (hd.quiet ..) spaced
      rwa [hd.readBack_eq_self] at hread

/-- What is written of a fitting store, with or without spaces around the
delimiters, reads back into the empty configuration as that store. -/
theorem Config.read_render {d : Dialect} {s : Store} (hd : d.Plain) (hbracket : ['['] ∉ d.commentMarks)
    (hs : s.Fits d) (spaced : Bool) :
    ∃ text, (⟨d, s⟩ : Config).render spaced = .ok text ∧
      ∀ source, (Config.empty d).read source text = (⟨d, s⟩, .ok ()) := by
  have hlegible : s.Legible d spaced := Store.legible_of_view hd (fun _ => hbracket) hs.newline
    fun part hpart pair hpair => (hs.entries part hpart pair hpair).legible hd spaced
  obtain ⟨text, hrender, hread⟩ :=
    hs.toArranged.exists_read hlegible hd.defaultSection hd.blankLines
  refine ⟨text, hrender, fun source => ?_⟩
  simp only [Config.read, Config.empty, hread]

/-- A configuration with something of each kind: an entry before any header,
defaults, a key alone, and values with an empty first row, an empty row inside,
and rows that would mean something at the start of a line. -/
def Config.motley : Config where
  dialect := { bareKeys := true, headless := true }
  store :=
    { defaultName := defaultSectionName
      defaults := [("path".toList, some "/usr\n\n[bin]\nkey = /opt".toList)]
      sections :=
        [(unnamedSection, [("root".toList, some [])]),
          (" a [b] ".toList, []),
          ("web".toList, [("quiet".toList, none), ("motd".toList, some "\nhi : there".toList)])] }

theorem Config.read_render_motley :
    motley.dialect.Plain ∧ ['['] ∉ motley.dialect.commentMarks ∧
      motley.store.Fits motley.dialect ∧
      ∃ text, motley.render true = .ok text ∧
        ∀ source, (empty motley.dialect).read source text = (motley, .ok ()) :=
  ⟨by decide, by decide, by decide, read_render (by decide) (by decide) (by decide) true⟩

end Ini
