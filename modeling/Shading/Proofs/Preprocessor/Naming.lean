import Shading.Proofs.Lexeme.FileName
import Shading.Proofs.Preprocessor.Rejections

/-!
# The name of an include from the search path

There is no search path, so an include of a file name between angle brackets is rejected. The report gives
the name that the tokens between the brackets print, which is the name in the source unless a number in it is
printed in another way than it is written.
-/

namespace Shading

open Text FileName

/-- A line that includes a file of this name from the search path. -/
def FileName.searchPathLine (text : List UInt8) : List UInt8 :=
  bytes "#include <" ++ text ++ [ascii '>']

namespace Cursor

lemma read_angle {b : UInt8} {bs : List UInt8} {p : Punct} (hb : b ∈ [ascii '<', ascii '>'])
    (hp : p.bytes = [b]) (hofBytes : Punct.ofBytes? [b] = some p) (hbs : ∀ c ∈ bs.head?, c ∉ seconds b)
    (l : Location) :
    read ⟨l, b :: bs⟩ = ({ location := l, token := .punct p }, ⟨l.right 1, bs⟩) := by
  have hother : ∀ b ∈ [ascii '<', ascii '>'], isDigitIn 10 b = false ∧ b ≠ ascii '.' ∧ b ≠ ascii '/' := by
    decide +kernel
  obtain ⟨hdigit, hpoint, hslash⟩ := hother b hb
  have hread := read_punct (List.mem_append_right [ascii '.', ascii '-', ascii '/'] hb)
    (by simp [Reading.startsNumeral, hdigit, hpoint]) (fun h => absurd h hslash)
    ((ofBytes?_single hbs).trans hofBytes)
  have hrest : (b :: bs).drop p.bytes.length = bs := by
    rw [hp, List.length_singleton, List.drop_one, List.tail_cons]
  rw [hrest] at hread
  exact read_single hread l

end Cursor

namespace Lexemes

lemma list_of_read {c c' : Cursor} {x : Lexeme} (hc : c.rest ≠ []) (h : c.read = (x, c')) :
    (ofCursor c).list = x :: (ofCursor c').list := by
  rw [ofCursor_read hc, h]

lemma ofCursor_searchPathLine {text back : List UInt8} (htext : IsFileName text)
    (hback : back.head?.all isBreak = true) :
    ∃ pieces : List (List UInt8 × Token), pieces.flatMap (·.1) = text ∧ (∀ x ∈ pieces, IsPiece x.1 x.2) ∧
      (DigitsInWords text → ∀ x ∈ pieces, x.2 ≠ .invalid ∧ x.2.constantType? = none) ∧
      ∀ l, ∃ xs gap left right, xs.map (·.token) = pieces.map (·.2) ∧
        (ofCursor ⟨l, searchPathLine text ++ back⟩).list =
          (⟨l, .punct .hash, none⟩ :: ⟨l.right 1, .identifier "include", none⟩ :: ⟨gap, .blank, none⟩ ::
            ⟨left, .punct .leftAngle, none⟩ :: (xs ++ [⟨right, .punct .rightAngle, none⟩])) ++
          (ofCursor ⟨right.right 1, back⟩).list := by
  obtain ⟨pieces, hpieces, hkinds, hplain, hlexemes⟩ := exists_pieces htext back
  refine ⟨pieces, hpieces, hkinds, hplain, fun l => ?_⟩
  have hbytes : searchPathLine text ++ back =
      ascii '#' :: (bytes "include" ++ ascii ' ' :: ascii '<' :: (text ++ ascii '>' :: back)) := by
    have hfront : bytes "#include <" = ascii '#' :: (bytes "include" ++ [ascii ' ', ascii '<']) := by decide
    rw [searchPathLine, hfront]
    simp
  have hleft : ∀ c ∈ (text ++ ascii '>' :: back).head?, c ∉ seconds (ascii '<') := by
    have hseconds : seconds (ascii '<') = [ascii '<', ascii '<', ascii '='] := rfl
    have hother : ∀ c ∈ seconds (ascii '<'), ¬(isNameByte c = true ∨ c = ascii '>') := by
      rw [hseconds]
      decide +kernel
    exact fun c hc hmem => hother c hmem (htext.head? back c hc)
  have hright : ∀ c ∈ back.head?, c ∉ seconds (ascii '>') := by
    have hseconds : seconds (ascii '>') = [ascii '>', ascii '>', ascii '='] := rfl
    have hother : ∀ c ∈ seconds (ascii '>'), isBreak c ≠ true := by
      rw [hseconds]
      decide +kernel
    rw [Option.all_eq_true] at hback
    exact fun c hc hmem => hother c hmem (hback c hc)
  have hblank : Reading.skipBlanks (ascii '<' :: (text ++ ascii '>' :: back)) =
      ascii '<' :: (text ++ ascii '>' :: back) := Reading.skipBlanks_of_startsBlanks (by rfl)
  let gap := (l.right 1).right "include".utf8ByteSize
  obtain ⟨xs, right, hxs, hlist⟩ := hlexemes ((gap.right 1).right 1)
  have hopen := Cursor.read_angle (b := ascii '<') (p := .leftAngle) (by decide) rfl rfl hleft (gap.right 1)
  have hclose := Cursor.read_angle (b := ascii '>') (p := .rightAngle) (by decide) rfl rfl hright right
  refine ⟨xs, gap, gap.right 1, right, hxs, ?_⟩
  rw [hbytes, list_of_read (by simp) (Cursor.read_hash l _),
    list_of_read (by simp) (Cursor.read_word (by decide +kernel) (by rfl)),
    list_of_read (by simp) (Cursor.read_space hblank gap), list_of_read (by simp) hopen, hlist,
    list_of_read (by simp) hclose]
  simp

end Lexemes

lemma Line.content_eq {l : Line} {rest xs ys : List Lexeme} (hl : l.IsLine) (hlast : l.stop = none → rest = [])
    (h : l.lexemes ++ rest = xs ++ ys) (hxs : ∀ x ∈ xs, x.token ≠ .newline)
    (hys : ∀ y ∈ ys.head?, y.token = .newline) : l.content = xs := by
  have hfront {zs : List Lexeme} (hzs : ∀ z ∈ zs, z.token ≠ .newline) {back : List Lexeme}
      (hback : ∀ y ∈ back.head?, y.token = .newline) : (zs ++ back).takeWhile (·.token != .newline) = zs := by
    rw [List.takeWhile_append_of_pos (by simpa using hzs)]
    cases back with
    | nil => simp
    | cons y back => simp [hback y rfl]
  have hbreak : ∀ y ∈ (l.stop.toList ++ rest).head?, y.token = .newline := by
    cases hstop : l.stop with
    | none => simp [hlast hstop]
    | some y => simpa using (hl.stop y hstop).1
  rw [lexemes, List.append_assoc] at h
  rw [← hfront hl.content hbreak, h, hfront hxs hys]

namespace Preprocessor

lemma printed_lexemes (xs : List Lexeme) : printed (xs.map (·.token)) =
    String.join (((xs.filter (!·.token.isSkipped)).map (·.located)).map (·.token.text)) := by
  simp [printed, List.filter_map, Function.comp_def, Lexeme.located]

lemma head?_newline {back : List UInt8} (hback : back.head?.all isBreak = true) (l : Location) :
    ∀ x ∈ (Lexemes.ofCursor ⟨l, back⟩).list.head?, x.token = .newline := by
  cases back with
  | nil => simp [Lexemes.ofCursor_nil]
  | cons b back =>
    have hb : isBreak b = true := by simpa using hback
    obtain ⟨rest, hrest⟩ := exists_afterBreak? hb back
    rw [Lexemes.ofCursor_break (c := ⟨l, b :: back⟩) hrest]
    simp

section SearchPath

variable {fs : FileSystem} {p : Preprocessor} {l : Line} {rest xs : List Lexeme}
  {place gap left right : Location}

lemma rejects_searchPath (hbefore : p.IsBefore l rest) (hactive : p.isActive = true)
    (hdepth : p.frames.length ≤ p.limits.includeDepth)
    (hcontent : l.content = ⟨place, .punct .hash, none⟩ :: ⟨place.right 1, .identifier "include", none⟩ ::
      ⟨gap, .blank, none⟩ :: ⟨left, .punct .leftAngle, none⟩ :: (xs ++ [⟨right, .punct .rightAngle, none⟩])) :
    Rejects fs p l ⟨⟨place.right 1, .string (printed (xs.map (·.token)))⟩,
      .searchPathUnsupported (printed (xs.map (·.token)))⟩ := by
  obtain ⟨f, outer, hframes, -⟩ := hbefore.top
  have hnames : NamesFile (⟨left, .punct .leftAngle⟩ ::
      ((xs.filter (!·.token.isSkipped)).map (·.located) ++ [⟨right, .punct .rightAngle⟩])) false _ :=
    .angles rfl rfl
  rw [← printed_lexemes] at hnames
  have hframe : includedFrame fs f.source false (printed (xs.map (·.token))) =
      .error (.searchPathUnsupported (printed (xs.map (·.token)))) := rfl
  refine ⟨place, _, ?_, .unresolved hactive hnames hframes hdepth hframe⟩
  rw [Line.words, hcontent]
  simp [Token.isSkipped, Lexeme.located]

end SearchPath

/-- An include of a file name between angle brackets is rejected under the name that is printed for the
tokens between them. This is the name in the source if the constants in it are well-formed and printed as
they are written, and in particular if no number begins in it. -/
theorem searchPath_name {text back : List UInt8} (htext : IsFileName text)
    (hback : back.head?.all isBreak = true) :
    ∃ (pieces : List (List UInt8 × Token)) (name : String), pieces.flatMap (·.1) = text ∧
      (∀ x ∈ pieces, IsPiece x.1 x.2) ∧ name = printed (pieces.map (·.2)) ∧
      (∀ fs p l rest place, IsBefore p l rest →
        l.lexemes ++ rest = (Lexemes.ofCursor ⟨place, searchPathLine text ++ back⟩).list →
        p.isActive = true → p.frames.length ≤ p.limits.includeDepth →
        Run fs p [] ((p.skipLine l rest).noteAll
          [⟨p.currentName, place.right 1, .string name, .error (.searchPathUnsupported name)⟩])) ∧
      ((∀ x ∈ pieces, x.2 ≠ .invalid) →
        (∀ x ∈ pieces, ∀ type, x.2.constantType? = some type → bytes x.2.text = x.1) → bytes name = text) ∧
      (DigitsInWords text → bytes name = text) := by
  obtain ⟨pieces, hpieces, hkinds, hplain, hlexemes⟩ := Lexemes.ofCursor_searchPathLine htext hback
  have hprinted (hvalid : ∀ x ∈ pieces, x.2 ≠ .invalid)
      (hconstant : ∀ x ∈ pieces, ∀ type, x.2.constantType? = some type → bytes x.2.text = x.1) :
      bytes (printed (pieces.map (·.2))) = text := (bytes_printed hkinds hvalid hconstant).trans hpieces
  refine ⟨pieces, _, hpieces, hkinds, rfl, ?_, hprinted, fun hdigits => ?_⟩
  · intro fs p l rest place hbefore hlist hactive hdepth
    obtain ⟨xs, gap, left, right, hxs, hline⟩ := hlexemes place
    have hinline : ∀ x ∈ xs, x.token ≠ .newline := by
      intro x hx
      have hmem : x.token ∈ pieces.map (·.2) := hxs ▸ List.mem_map_of_mem hx
      obtain ⟨y, hy, htoken⟩ := List.mem_map.1 hmem
      rw [← htoken]
      exact (hkinds y hy).inline
    have hcontent := Line.content_eq hbefore.isLine hbefore.last (hlist.trans hline)
      (by simpa [or_imp, forall_and] using hinline) (head?_newline hback _)
    rw [← hxs]
    exact hbefore.rejected_run (rejects_searchPath hbefore hactive hdepth hcontent)
  · refine hprinted (fun x hx => (hplain hdigits x hx).1) fun x hx type htype => ?_
    rw [(hplain hdigits x hx).2] at htype
    cases htype

/-- The only line of a source. -/
def versionedLine : Line :=
  ⟨(Lexemes.ofBytes (searchPathLine (bytes "lib/v2-x86_64.h"))).list, none⟩

theorem searchPath_name_versioned :
    IsFileName (bytes "lib/v2-x86_64.h") ∧ DigitsInWords (bytes "lib/v2-x86_64.h") ∧
      ∃ p, p = ({} : Compiler).preprocessor .empty
          (.ofBytes "" (searchPathLine (bytes "lib/v2-x86_64.h"))) ∧
        IsBefore p versionedLine [] ∧ p.isActive = true ∧ p.frames.length ≤ p.limits.includeDepth ∧
        Run .empty p [] ((p.skipLine versionedLine []).noteAll
          [⟨p.currentName, ⟨0, 1⟩, .string "lib/v2-x86_64.h",
            .error (.searchPathUnsupported "lib/v2-x86_64.h")⟩]) := by
  have htext : IsFileName (bytes "lib/v2-x86_64.h") := ⟨by decide +kernel, by decide +kernel⟩
  have hdigits : DigitsInWords (bytes "lib/v2-x86_64.h") := by
    unfold DigitsInWords
    decide +kernel
  have hend : ([] : List UInt8).head?.all isBreak = true := rfl
  obtain ⟨pieces, name, -, -, -, hrun, -, hname⟩ := searchPath_name htext hend
  obtain rfl : name = "lib/v2-x86_64.h" := by
    rw [← decode_bytes name, hname hdigits, decode_bytes]
  have hbefore : (({} : Compiler).preprocessor .empty
      (.ofBytes "" (searchPathLine (bytes "lib/v2-x86_64.h")))).IsBefore versionedLine [] := by
    refine ⟨rfl, ⟨by decide +kernel, nofun⟩, fun _ => rfl, _, [], rfl, ?_, fun _ => rfl⟩
    simp [versionedLine, Line.lexemes, Frame.ofContent]
  have hline : versionedLine.lexemes ++ [] =
      (Lexemes.ofCursor ⟨.start, searchPathLine (bytes "lib/v2-x86_64.h") ++ []⟩).list := by
    simp [versionedLine, Line.lexemes, Lexemes.ofBytes]
  exact ⟨htext, hdigits, _, rfl, hbefore, rfl, by decide, hrun .empty _ _ _ _ hbefore hline rfl (by decide)⟩

/-- The point in this name begins a number, which is printed as 0.5. -/
theorem searchPath_name_rewritten : IsFileName (bytes "v1.5") ∧
    ((({} : Compiler).preprocessor .empty (.ofBytes "" (searchPathLine (bytes "v1.5")))).drain
      .empty).2.diagnostics = [⟨"", ⟨0, 1⟩, .string "v10.5", .error (.searchPathUnsupported "v10.5")⟩] := by
  refine ⟨⟨by decide +kernel, by decide +kernel⟩, ?_⟩
  exact drain_computed (n := 9) (·.2.diagnostics) (by decide +kernel) rfl

end Preprocessor

end Shading
