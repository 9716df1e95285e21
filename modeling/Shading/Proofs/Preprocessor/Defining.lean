import Shading.Proofs.Compiler.History
import Shading.Proofs.Lexeme.Whole
import Shading.Proofs.Lexeme.Word
import Shading.Proofs.Preprocessor.Placement

/-!
# Macros from outside and from a first line

A macro that is given to a compiler does what a `#define` in front of the source does, which only moves
the source down by the lines it takes.
-/

namespace Shading

open Text

/-- The text of a line that defines a macro, without its end. -/
def Definition.line (name body : String) : String :=
  "#define " ++ name ++ " " ++ body

/-- The number of line breaks in the text. -/
def Text.breaks (s : String) : Nat :=
  (Location.start.after (bytes s)).line

def Diagnostic.lower (k : Nat) (d : Diagnostic) : Diagnostic :=
  { d with location := d.location.lower k }

/-- The same places `k` lines further down, in a source of the same name. -/
def Likeness.down (k : Nat) : Likeness where
  names name name' := name' = name
  places l l' := l' = l.lower k

lemma LocatedToken.eq_of_alike_down {k : Nat} {ts ts' : List LocatedToken}
    (h : List.Forall₂ (LocatedToken.Alike (.down k)) ts ts') : ts' = ts.map (·.lower k) := by
  induction h with
  | nil => rfl
  | @cons t t' ts ts' ht _ ih =>
    obtain ⟨l, token⟩ := t
    obtain ⟨l', token'⟩ := t'
    obtain ⟨hplace, htoken⟩ := ht
    rw [ih, List.map_cons]
    exact congrArg (· :: _) (congrArg₂ LocatedToken.mk hplace htoken)

lemma Diagnostic.eq_of_alike_down {k : Nat} {ds ds' : List Diagnostic}
    (h : List.Forall₂ (Diagnostic.Alike (.down k)) ds ds') : ds' = ds.map (·.lower k) := by
  induction h with
  | nil => rfl
  | @cons d d' ds ds' hd _ ih =>
    obtain ⟨source, l, token, problem⟩ := d
    obtain ⟨source', l', token', problem'⟩ := d'
    obtain ⟨hsource, hplace, htoken, hproblem⟩ := hd
    simp only at hsource htoken hproblem
    subst hsource htoken hproblem
    rw [ih, List.map_cons]
    exact congrArg (· :: _) (congrArg (Diagnostic.mk _ · _ _) hplace)

namespace Lexemes

/-- The place of the body in a line that defines a macro. -/
def bodyLocation (name : String) : Location :=
  { line := 0, column := 9 + name.utf8ByteSize }

lemma ofBytes_definition {name : String} (hname : Identifier.isValid name = true) (body : String) :
    ∃ gap back, (∀ x ∈ gap, x.token = .blank ∧ x.fault = none) ∧
      (ofCursor ⟨bodyLocation name, bytes body⟩).list = gap ++ back ∧
      ofBytes (bytes (Definition.line name body)) =
        { list := [{ location := ⟨0, 0⟩, token := .punct .hash },
              { location := ⟨0, 1⟩, token := .identifier "define" },
              { location := ⟨0, 7⟩, token := .blank },
              { location := ⟨0, 8⟩, token := .identifier name },
              { location := ⟨0, 8 + name.utf8ByteSize⟩, token := .blank }] ++ back
          stop := (ofCursor ⟨bodyLocation name, bytes body⟩).stop } := by
  have hblank : (ascii ' ' :: bytes body).head?.any Identifier.canContinue = false := rfl
  have htext : bytes (Definition.line name body) = ascii '#' :: (bytes "define" ++
      (ascii ' ' :: (bytes name ++ (ascii ' ' :: bytes body)))) := by
    rw [Definition.line, bytes_append, bytes_append, bytes_append]
    simp [show bytes "#define " = ascii '#' :: (bytes "define" ++ [ascii ' ']) by decide +kernel,
      show bytes " " = [ascii ' '] by decide +kernel]
  obtain ⟨gap, back, hgap, hbody, hlist⟩ := ofCursor_blank ⟨0, 8 + name.utf8ByteSize⟩ (bytes body)
  have hplace : Location.right 1 ⟨0, 8 + name.utf8ByteSize⟩ = bodyLocation name := by
    simp [Location.right, bodyLocation]
    omega
  rw [hplace] at hbody hlist
  refine ⟨gap, back, hgap, hbody, ?_⟩
  rw [ofBytes, htext, ofCursor_read (by simp), Cursor.read_hash, ofCursor_read (by simp),
    Cursor.read_word (by decide +kernel) (by rfl), ofCursor_read (by simp), Cursor.read_blank hname,
    ofCursor_read (by simp), Cursor.read_word hname hblank]
  have hend : Location.right name.utf8ByteSize
      (.right 1 (.right "define".utf8ByteSize (.right 1 .start))) = ⟨0, 8 + name.utf8ByteSize⟩ := rfl
  rw [hend, hlist]
  rfl

end Lexemes

/-- The words of a body in the line that defines the macro. -/
def Definition.lineWords (name body : String) : List LocatedToken :=
  ((Lexemes.ofCursor ⟨Lexemes.bodyLocation name, bytes body⟩).list.filter
    (!·.token.isSkipped)).map (·.located)

/-- What is wrong with the tokens of a body, in the line that defines the macro. -/
def Definition.lineReports (source name body : String) : List Diagnostic :=
  (Lexemes.ofCursor ⟨Lexemes.bodyLocation name, bytes body⟩).list.filterMap (·.diagnostic? source)

lemma Directive.definition_of_apart {d : Directive} {location : Location} {name : String}
    {body : List LocatedToken} (hargs : d.args = ⟨location, .identifier name⟩ :: body)
    (hapart : body.head? ≠ some ⟨location.right name.utf8ByteSize, .punct .leftParen⟩) :
    d.definition = .ok { name, body } := by
  have hname : d.macroName = .ok name := by
    unfold macroName
    rw [hargs]
  unfold definition
  rw [hname, hargs]
  dsimp only [bind, Except.bind, List.drop_succ_cons, List.drop_zero]
  split
  next words here rest hbody =>
    obtain rfl : body = ⟨here, .punct .leftParen⟩ :: rest := hbody
    have hhere : here ≠ location.right name.utf8ByteSize := by
      rintro rfl
      exact hapart rfl
    rw [if_neg hhere]
    rfl
  · rfl

namespace Preprocessor

/-- The line that defines a macro. -/
def definitionLine (name body : String) : Line where
  content := (Lexemes.ofBytes (bytes (Definition.line name body))).list
  stop := some
    { location := (Lexemes.ofBytes (bytes (Definition.line name body))).stop, token := .newline }

section DefinitionLine

variable {name : String} (hname : Identifier.isValid name = true) (body : String)
include hname

lemma words_definitionLine :
    (definitionLine name body).words = ⟨⟨0, 0⟩, .punct .hash⟩ :: ⟨⟨0, 1⟩, .identifier "define"⟩ ::
      ⟨⟨0, 8⟩, .identifier name⟩ :: Definition.lineWords name body := by
  obtain ⟨gap, back, hgap, hbody, hline⟩ := Lexemes.ofBytes_definition hname body
  have hskipped : gap.filter (!·.token.isSkipped) = [] := by
    rw [List.filter_eq_nil_iff]
    intro x hx
    simp [(hgap x hx).1, Token.isSkipped]
  rw [Line.words, definitionLine, hline, Definition.lineWords, hbody, List.filter_append gap,
    hskipped]
  rfl

lemma faults_definitionLine (source : String) :
    (definitionLine name body).faults source = Definition.lineReports source name body := by
  obtain ⟨gap, back, hgap, hbody, hline⟩ := Lexemes.ofBytes_definition hname body
  have hharmless : gap.filterMap (·.diagnostic? source) = [] := by
    rw [List.filterMap_eq_nil_iff]
    intro x hx
    simp [Lexeme.diagnostic?, (hgap x hx).2]
  rw [Line.faults, definitionLine, hline, Definition.lineReports, hbody,
    List.filterMap_append (l := gap), hharmless]
  rfl

lemma mem_definitionLine {body : String} {x : Lexeme} (hx : x ∈ (definitionLine name body).content) :
    (x.hasError = false ∧ x.token ≠ .newline) ∨
      x ∈ (Lexemes.ofCursor ⟨Lexemes.bodyLocation name, bytes body⟩).list := by
  obtain ⟨gap, back, hgap, hbody, hline⟩ := Lexemes.ofBytes_definition hname body
  rw [definitionLine, hline] at hx
  rw [hbody]
  rcases List.mem_append.1 hx with hx | hx
  · left
    fin_cases hx <;> exact ⟨rfl, by simp⟩
  · exact .inr (List.mem_append_right _ hx)

lemma directive_definitionLine :
    (definitionLine name body).directive? = some (.ok
      { hash := ⟨0, 0⟩, name := "define", location := ⟨0, 1⟩
        args := ⟨⟨0, 8⟩, .identifier name⟩ :: Definition.lineWords name body }) := by
  rw [Line.directive?, words_definitionLine hname body]
  rfl

omit hname in
lemma definition_definitionLine {body : String} {d : Directive}
    (hd : d.args = ⟨⟨0, 8⟩, .identifier name⟩ :: Definition.lineWords name body) :
    d.definition = .ok { name, body := Definition.lineWords name body } := by
  refine Directive.definition_of_apart hd fun hhead => ?_
  obtain ⟨x, hx, hparen⟩ := List.mem_map.1 (List.mem_of_mem_head? hhead)
  have hbehind := Lexemes.precedes_ofCursor _ x (List.mem_of_mem_filter hx)
  rw [show x.location = _ from congrArg LocatedToken.location hparen] at hbehind
  simp [Location.Precedes, Location.right, Lexemes.bodyLocation] at hbehind

end DefinitionLine

lemma forall_ofCursor {P : Token → Option Fault → Prop} (l m : Location) {bs : List UInt8}
    (h : ∀ x ∈ (Lexemes.ofCursor ⟨l, bs⟩).list, P x.token x.fault) :
    ∀ x ∈ (Lexemes.ofCursor ⟨m, bs⟩).list, P x.token x.fault := by
  intro x hx
  have hmem := List.mem_map_of_mem (f := fun x => (x.token, x.fault)) hx
  rw [Lexemes.tokens_ofCursor m l] at hmem
  obtain ⟨y, hy, hsame⟩ := List.mem_map.1 hmem
  obtain ⟨htoken, hfault⟩ := Prod.mk.inj hsame
  rw [← htoken, ← hfault]
  exact h y hy

lemma tokens_lineWords (name body : String) :
    (Definition.lineWords name body).map (·.token) =
      (Definition.wordsOf (bytes body)).map (·.token) := by
  have htokens (xs : List Lexeme) : ((xs.filter (!·.token.isSkipped)).map (·.located)).map (·.token) =
      ((xs.map fun x => (x.token, x.fault)).filter (!·.1.isSkipped)).map (·.1) := by
    rw [List.filter_map, List.map_map, List.map_map]
    rfl
  unfold Definition.lineWords Definition.wordsOf Lexemes.ofBytes
  rw [htokens, htokens, Lexemes.tokens_ofCursor]

lemma ofBytes_behind_definition {name body : String} (hname : Identifier.isValid name = true)
    (hclean : ∀ x ∈ (Lexemes.ofBytes (bytes body)).list, x.hasError = false)
    (hlast : (bytes body).getLast? ≠ some (ascii '\r')) (content : List UInt8) :
    Lexemes.ofBytes (bytes (Definition.line name body ++ "\n") ++ content) =
      { list := (definitionLine name body).lexemes ++
          (Lexemes.ofBytes content).list.map (·.lower (1 + breaks body))
        stop := (Lexemes.ofBytes content).stop.lower (1 + breaks body) } := by
  have hclean' : ∀ x ∈ (Lexemes.ofCursor ⟨Lexemes.bodyLocation name, bytes body⟩).list,
      x.hasError = false :=
    forall_ofCursor (P := fun _ fault => fault.any (·.isError) = false) _ _ hclean
  have hline : ∀ x ∈ (Lexemes.ofBytes (bytes (Definition.line name body))).list,
      x.hasError = false := by
    intro x hx
    rcases mem_definitionLine hname hx with h | h
    · exact h.1
    · exact hclean' x h
  have hsplits : SplitsNoBreak (bytes (Definition.line name body)) (ascii '\n' :: content) := by
    intro hreturn
    rw [Definition.line, bytes_append] at hreturn
    cases hbody : bytes body with
    | nil =>
      rw [hbody, List.append_nil, bytes_append,
        List.getLast?_append_of_ne_nil _ (by decide +kernel)] at hreturn
      exact absurd hreturn (by decide +kernel)
    | cons b bs =>
      rw [List.getLast?_append_of_ne_nil _ (by simp [hbody])] at hreturn
      exact absurd hreturn hlast
  have hstop : (Lexemes.ofBytes (bytes (Definition.line name body))).stop.nextLine =
      ⟨1 + breaks body, 0⟩ := by
    obtain ⟨gap, back, -, -, hline⟩ := Lexemes.ofBytes_definition hname body
    rw [hline]
    dsimp only
    rw [Lexemes.stop_eq_after hclean', Location.nextLine, Location.line_after]
    simp [Lexemes.bodyLocation, breaks, Nat.add_comm]
  have hbreak (l : Location) : Lexemes.ofCursor ⟨l, ascii '\n' :: content⟩ =
      { list := { location := l, token := .newline } ::
          (Lexemes.ofCursor ⟨l.nextLine, content⟩).list
        stop := (Lexemes.ofCursor ⟨l.nextLine, content⟩).stop } :=
    Lexemes.ofCursor_break rfl
  have htext : bytes (Definition.line name body ++ "\n") ++ content =
      bytes (Definition.line name body) ++ ascii '\n' :: content := by
    rw [bytes_append, show bytes "\n" = [ascii '\n'] by decide +kernel, List.append_assoc]
    rfl
  have hjoined : Lexemes.ofBytes (bytes (Definition.line name body) ++ ascii '\n' :: content) =
      (Lexemes.ofBytes (bytes (Definition.line name body))).followedBy (ascii '\n' :: content) :=
    Lexemes.ofCursor_append_break hline rfl hsplits
  rw [htext, hjoined, Lexemes.followedBy, hbreak, hstop, Lexemes.ofCursor_line]
  simp [Line.lexemes, definitionLine, Lexemes.lower, Lexemes.ofBytes]

/-- The line is read like any other one and leaves its macro behind. -/
lemma definition_passage (fs : FileSystem) {base : Preprocessor} {f : Frame} {s : Stage}
    {name body : String} (hname : Identifier.isValid name = true)
    (hclean : ∀ x ∈ (Lexemes.ofBytes (bytes body)).list, x.token ≠ .newline)
    (hs : s.isActive = true) :
    Passage fs base f s [definitionLine name body] []
      (Definition.lineReports f.source.name name body)
      { s with table := s.table.insert name { name, body := Definition.lineWords name body } } := by
  have hline : (definitionLine name body).IsLine := by
    refine ⟨fun x hx => ?_, by simp [definitionLine]⟩
    rcases mem_definitionLine hname hx with h | h
    · exact h.2
    · exact forall_ofCursor (P := fun token _ => token ≠ .newline) _ _ hclean x h
  have hdirective := directive_definitionLine hname body
  have hdefinition : Directive.definition
      ⟨⟨0, 0⟩, "define", ⟨0, 1⟩, ⟨⟨0, 8⟩, .identifier name⟩ :: Definition.lineWords name body⟩ =
        .ok { name, body := Definition.lineWords name body } :=
    definition_definitionLine rfl
  have hplain : (definitionLine name body).isPlain = true := by
    unfold Line.isPlain Line.opens Line.keyword?
    rw [hdirective]
    rfl
  have hhash : (definitionLine name body).isDirective = true := by
    rw [Line.isDirective, words_definitionLine hname body]
  have hpassage : Passage fs base f s [definitionLine name body] _ _ _ := plain_active hline hplain hs
  have htokens : (definitionLine name body).tokens base.limits.expansion s.table = [] := by
    rw [Line.tokens, if_pos hhash]
  have hreports : (definitionLine name body).reports f.source.name base.limits.expansion s.table =
      Definition.lineReports f.source.name name body := by
    have hnothing : (definitionLine name body).directiveReports f.source.name = [] := by
      unfold Line.directiveReports
      rw [hdirective]
      dsimp only
      rw [hdefinition]
      rfl
    rw [Line.reports, if_pos hhash, faults_definitionLine hname body, hnothing, List.append_nil]
  have hredefine : (definitionLine name body).redefine s.table =
      s.table.insert name { name, body := Definition.lineWords name body } := by
    unfold Line.redefine
    rw [hdirective]
    dsimp only
    rw [hdefinition]
    rfl
  rwa [htokens, hreports, hredefine] at hpassage

lemma noteAll_eq_precededBy {p : Preprocessor} (h : p.log = #[]) (ds : List Diagnostic) :
    p.noteAll ds = p.precededBy ds.toArray := by
  simp [noteAll, precededBy, h]

/-- The state in which a content is read `k` lines further down in a source of this name. -/
def lowered (limits : Limits) (source : String) (text : List UInt8) (table : DefineTable) (k : Nat)
    (content : List UInt8) (atLineStart : Bool) : Preprocessor where
  limits := limits
  mainName := source
  defines := table
  frames :=
    [{ source := { name := source, backing := .bytes text, loaded := some text }
       file := none
       lexemes := (Lexemes.ofBytes content).list.map (·.lower k)
       stop := (Lexemes.ofBytes content).stop.lower k
       atLineStart }]

lemma run_behind_definition (fs : FileSystem) {c : Compiler} (hc : c.Reachable) {name body : String}
    (hname : Identifier.isValid name = true)
    (hclean : ∀ x ∈ (Lexemes.ofBytes (bytes body)).list, x.hasError = false ∧ x.token ≠ .newline)
    (hlast : (bytes body).getLast? ≠ some (ascii '\r')) (source : String) (content : List UInt8) :
    ∃ atLineStart, ((Lexemes.ofBytes content).list ≠ [] → atLineStart = true) ∧
      Run fs (c.preprocessor fs (.ofBytes source (bytes (Definition.line name body ++ "\n") ++ content)))
        [] ((lowered c.config.limits source (bytes (Definition.line name body ++ "\n") ++ content)
          (c.defines.insert name { name, body := Definition.lineWords name body }) (1 + breaks body)
            content atLineStart).precededBy (Definition.lineReports source name body).toArray) := by
  let text := bytes (Definition.line name body ++ "\n") ++ content
  let start := c.preprocessor fs (.ofBytes source text)
  let f := Frame.ofContent fs { name := source, backing := .bytes text, loaded := some text } text
  let rest := (Lexemes.ofBytes content).list.map (·.lower (1 + breaks body))
  have htext : Lexemes.ofBytes text =
      { list := (definitionLine name body).lexemes ++ rest
        stop := (Lexemes.ofBytes content).stop.lower (1 + breaks body) } :=
    ofBytes_behind_definition hname (fun x hx => (hclean x hx).1) hlast content
  have hreads : Reads start f start ⟨c.defines, []⟩
      ([definitionLine name body].flatMap Line.lexemes ++ rest) [] := by
    refine ⟨isSound_start hc _, rfl, true, fun _ => rfl, ?_⟩
    have hlexemes : f.lexemes = [definitionLine name body].flatMap Line.lexemes ++ rest := by
      rw [List.flatMap_singleton]
      exact congrArg Lexemes.list htext
    rw [noteAll_nil, ← hlexemes]
    rfl
  obtain ⟨q, hrun, -, hq⟩ := definition_passage fs hname (fun x hx => (hclean x hx).2) rfl rest [] start
    (by simp [Line.Separated, definitionLine]) hreads
  obtain ⟨atLineStart, hstart, rfl⟩ := hq.state
  refine ⟨atLineStart, fun hne => hstart (by simpa [rest] using hne), ?_⟩
  rw [noteAll_eq_precededBy (by rfl)] at hrun
  have hstop : f.stop = (Lexemes.ofBytes content).stop.lower (1 + breaks body) :=
    congrArg Lexemes.stop htext
  have hstate : reading start f ⟨c.defines.insert name { name, body := Definition.lineWords name body }, []⟩
      rest atLineStart = lowered c.config.limits source text
        (c.defines.insert name { name, body := Definition.lineWords name body }) (1 + breaks body) content
          atLineStart := by
    unfold lowered
    rw [← hstop]
    rfl
  rw [← hstate]
  exact hrun

lemma whole_behind (limits : Limits) (source : String) {table table' : DefineTable}
    (htable : table'.unplaced = table.unplaced) (text content : List UInt8) (k : Nat) {atLineStart : Bool}
    (hstart : (Lexemes.ofBytes content).list ≠ [] → atLineStart = true) :
    Whole (.down k) k [] (lowered limits source content table 0 content true)
      (lowered limits source text table' k content atLineStart) := by
  refine .intro [] _ _ ⟨rfl, htable, .nil, ⟨rfl, rfl⟩, .nil⟩ rfl rfl ?_ rfl rfl (.inr ⟨rfl, rfl⟩)
  refine ⟨rfl, rfl, by simp, fun _ => rfl, fun hne => hstart (by simpa using hne), none, by simp, ?_,
    fun _ => .inl rfl⟩
  simp

/-- A macro that is given to the compiler and one that the first line of the source defines: the same
tokens are delivered, the same macros are defined and the same is reported, on lines further down by those
of the definition, whose oversized constants are reported as well. -/
theorem defining_outside_or_inside (fs : FileSystem) {c : Compiler} (hc : c.Reachable)
    {name body : String} (hname : Identifier.isValid name = true)
    (hclean : ∀ x ∈ (Lexemes.ofBytes (bytes body)).list, x.hasError = false ∧ x.token ≠ .newline)
    (hlast : (bytes body).getLast? ≠ some (ascii '\r')) (source : String) (content : List UInt8) :
    ∃ c', c.addDefine name (some body) = .ok c' ∧
      let outside := (c'.preprocessor fs (.ofBytes source content)).drain fs
      let inside := (c.preprocessor fs (.ofBytes source
        (bytes (Definition.line name body ++ "\n") ++ content))).drain fs
      inside.1 = outside.1.map (·.lower (1 + breaks body)) ∧
        inside.2.defines.unplaced = outside.2.defines.unplaced ∧
        inside.2.diagnostics = Definition.lineReports source name body ++
          outside.2.diagnostics.map (·.lower (1 + breaks body)) := by
  have haccepted : Compiler.accepts name (some body) = true := by
    refine Compiler.accepts_iff.2 ⟨hname, fun d hd => ?_⟩
    obtain ⟨x, hx, hd⟩ := List.mem_filterMap.1 hd
    obtain ⟨fault, hfault, rfl⟩ := Option.map_eq_some_iff.1 hd
    have herror := (hclean x hx).1
    rw [Lexeme.hasError, hfault] at herror
    cases fault with
    | error cause => cases herror
    | overflow type => rfl
  refine ⟨_, c.addDefine_of_accepts haccepted, ?_⟩
  intro outside inside
  obtain ⟨atLineStart, hstart, hrun⟩ := run_behind_definition fs hc hname hclean hlast source content
  have htable : (c.defines.insert name { name, body := Definition.lineWords name body }).unplaced =
      (c.defines.insert name (Compiler.defined name (some body))).unplaced := by
    have hsame : Definition.unplaced { name, body := Definition.lineWords name body } =
        (Compiler.defined name (some body)).unplaced :=
      Definition.unplaced_eq rfl (tokens_lineWords name body)
    rw [DefineTable.insert_unplaced, hsame, ← DefineTable.insert_unplaced]
  have hdirect : Compiler.preprocessor fs
      { c with defines := c.defines.insert name (Compiler.defined name (some body)) }
      (.ofBytes source content) = lowered c.config.limits source content
        (c.defines.insert name (Compiler.defined name (some body))) 0 content true := by
    simp only [lowered, Lexeme.lower_zero, List.map_id', Location.lower_zero]
    rfl
  have hsound : (Compiler.preprocessor fs
      { c with defines := c.defines.insert name (Compiler.defined name (some body)) }
      (.ofBytes source content)).IsSound :=
    isSound_start (.addDefine hc (c.addDefine_of_accepts haccepted)) _
  have hwhole := whole_behind c.config.limits source htable
    (bytes (Definition.line name body ++ "\n") ++ content) content (1 + breaks body) hstart
  rw [← hdirect] at hwhole
  obtain ⟨hts, hdefines, hds⟩ := hwhole.drain_alike fs (fun _ => rfl) ⟨hsound, by simp [hdirect, lowered]⟩
    rfl rfl
  have hinside := hrun.delivers rfl (by simp)
  rw [Delivers, drain_precededBy] at hinside
  dsimp only [inside]
  rw [hinside]
  refine ⟨LocatedToken.eq_of_alike_down hts, hdefines, ?_⟩
  rw [← Diagnostic.eq_of_alike_down hds]
  simp [diagnostics, precededBy]

/-- A body with a parenthesis in front, a constant that is too large, and a line break in a comment. -/
theorem defining_outside_or_inside_parenthesis :
    Compiler.Reachable {} ∧ Identifier.isValid "X" = true ∧
      (∀ x ∈ (Lexemes.ofBytes (bytes "(99999999999)/*\n*/")).list,
        x.hasError = false ∧ x.token ≠ .newline) ∧
      (bytes "(99999999999)/*\n*/").getLast? ≠ some (ascii '\r') ∧
      ∃ c', ({} : Compiler).addDefine "X" (some "(99999999999)/*\n*/") = .ok c' ∧
        let outside := (c'.preprocessor .empty (.ofBytes "" (bytes "X\n$"))).drain .empty
        let inside := (({} : Compiler).preprocessor .empty (.ofBytes ""
          (bytes (Definition.line "X" "(99999999999)/*\n*/" ++ "\n") ++ bytes "X\n$"))).drain .empty
        inside.1 = outside.1.map (·.lower 2) ∧
          inside.2.defines.unplaced = outside.2.defines.unplaced ∧
          inside.2.diagnostics =
            { source := "", location := ⟨0, 11⟩, token := .int 1215752191
              problem := .warning (.constantOverflow .int) } :: outside.2.diagnostics.map (·.lower 2) := by
  have hname : Identifier.isValid "X" = true := by decide +kernel
  have hclean : ∀ x ∈ (Lexemes.ofBytes (bytes "(99999999999)/*\n*/")).list,
      x.hasError = false ∧ x.token ≠ .newline := by
    decide +kernel
  have hlast : (bytes "(99999999999)/*\n*/").getLast? ≠ some (ascii '\r') := by decide +kernel
  have hbreaks : 1 + breaks "(99999999999)/*\n*/" = 2 := by decide +kernel
  have hreports : Definition.lineReports "" "X" "(99999999999)/*\n*/" =
      [{ source := "", location := ⟨0, 11⟩, token := .int 1215752191
         problem := .warning (.constantOverflow .int) }] := by
    decide +kernel
  have hsame := defining_outside_or_inside .empty (.new {}) hname hclean hlast "" (bytes "X\n$")
  rw [hbreaks, hreports] at hsame
  exact ⟨.new {}, hname, hclean, hlast, hsame⟩

/-- Behind a body that ends in an escaped carriage return, the line feed after it belongs to the escape, and
the macro takes the next line as well. -/
theorem defining_differs_behind_escape :
    Identifier.isValid "X" = true ∧
      (∀ x ∈ (Lexemes.ofBytes (bytes "1 \\\r")).list, x.hasError = false ∧ x.token ≠ .newline) ∧
      ∃ c', ({} : Compiler).addDefine "X" (some "1 \\\r") = .ok c' ∧
        let outside := (c'.preprocessor .empty (.ofBytes "" (bytes "X\nX\n"))).drain .empty
        let inside := (({} : Compiler).preprocessor .empty (.ofBytes ""
          (bytes (Definition.line "X" "1 \\\r" ++ "\n") ++ bytes "X\nX\n"))).drain .empty
        inside.1.map (·.token) ≠ outside.1.map (·.token) := by
  refine ⟨by decide +kernel, by decide +kernel, _,
    Compiler.addDefine_of_accepts {} (by decide +kernel), ?_⟩
  intro outside inside
  have houtside : outside.1.map (·.token) = [.int 1, .int 1, .eof] :=
    drain_computed (fun r => r.1.map (·.token)) (n := 20) (by decide +kernel) rfl
  have hinside : inside.1.map (·.token) = [.int 1, .identifier "X", .eof] :=
    drain_computed (fun r => r.1.map (·.token)) (n := 20) (by decide +kernel) rfl
  rw [houtside, hinside]
  simp

end Preprocessor

end Shading
