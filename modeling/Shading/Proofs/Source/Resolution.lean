import Mathlib.Data.List.Infix
import Shading.Proofs.Path.Components
import Shading.Source

/-!
# Chains of local names

A file includes a file, which includes another one. Each name is seen from the directory of the file that it
stands in, so the directories along the chain add up behind the directory of the first file.
-/

namespace Shading

/-- A local name of ordinary components: a file, in directories that may be missing. -/
structure LocalName where
  dirs : List String
  file : String
  ordinary : ∀ part ∈ dirs ++ [file], Path.IsOrdinary part

namespace LocalName

/-- A local name as it is written. -/
def text (name : LocalName) : String :=
  "/".intercalate (name.dirs ++ [name.file])

end LocalName

namespace Path

variable {p : Path}

/-- The path of a name that is seen from the directory of a file. -/
def beside (p : Path) (name : String) : Path :=
  (p.parent?.getD ⟨""⟩).join ⟨name⟩

/-- The path at the end of a chain of names, each seen from the directory of the one before. -/
def follow (p : Path) (names : List LocalName) : Path :=
  names.foldl (fun p name => p.beside name.text) p

lemma follow_concat (p : Path) (names : List LocalName) (name : LocalName) :
    p.follow (names ++ [name]) = (p.follow names).beside name.text :=
  List.foldl_concat _ p name names

lemma beside_components (h : p.fileName?.isSome) (name : LocalName) :
    anchor (p.beside name.text).text.toList = anchor p.text.toList ∧
      (p.beside name.text).components = p.components.dropLast ++ name.dirs ++ [name.file] := by
  obtain ⟨dir, hparent, hanchor, hcomponents⟩ := components_parent h
  obtain ⟨hrelative, hname⟩ :=
    components_intercalate (q := ⟨name.text⟩) (List.append_ne_nil_of_right_ne_nil _ (by simp)) name.ordinary rfl
  obtain ⟨hanchor', hcomponents'⟩ := components_join dir hrelative
  rw [beside, hparent, Option.getD_some, hanchor', hcomponents', hanchor, hcomponents, hname]
  exact ⟨rfl, (List.append_assoc _ _ _).symm⟩

lemma fileName?_beside (h : p.fileName?.isSome) (name : LocalName) :
    (p.beside name.text).fileName? = some name.file := by
  have hfile := name.ordinary name.file (List.mem_append_right _ List.mem_cons_self)
  rw [fileName?_eq, (beside_components h name).2, List.getLast?_concat]
  simp [Option.filter, hfile.ne_dots]

lemma follow_components (h : p.fileName?.isSome) (names : List LocalName) :
    (p.follow names).fileName?.isSome ∧
      anchor (p.follow names).text.toList = anchor p.text.toList ∧
      (p.follow names).components.dropLast = p.components.dropLast ++ names.flatMap (·.dirs) := by
  induction names using List.reverseRecOn with
  | nil => exact ⟨h, rfl, (List.append_nil _).symm⟩
  | append_singleton names name ih =>
    obtain ⟨hfile, hanchor, hdirs⟩ := ih
    obtain ⟨hanchor', hcomponents⟩ := beside_components hfile name
    rw [follow_concat, fileName?_beside hfile, hanchor', hcomponents, List.dropLast_concat, hdirs,
      List.flatMap_append, List.flatMap_singleton, List.append_assoc]
    exact ⟨rfl, hanchor, rfl⟩

end Path

namespace Source

variable {base : Source} {path : Path} {fs : FileSystem}

/-- What a chain of includes leads to, each resolved from the source that the one before led to. -/
def resolveChain (fs : FileSystem) (base : Source) (names : List LocalName) : Except CompileError Source :=
  names.foldlM (fun source name => source.resolveInclude fs true name.text) base

/-- The source in this file, with what was read. -/
def read (path : Path) (content : List UInt8) : Source :=
  { ofFile path with loaded := some content }

lemma resolveInclude_of_read (hbase : base.path? = some path) {name : String} {content : List UInt8}
    (hread : fs.read (path.beside name) = .ok content) :
    base.resolveInclude fs true name = .ok (read (path.beside name) content) := by
  have hpath : base.relativePath? name = some (path.beside name) := by
    rw [relativePath?, hbase]
    rfl
  have hload : (ofFile (path.beside name)).load fs = (.ok content, read (path.beside name) content) := by
    simp [load, Source.content, ofFile, hread, read]
  simp [resolveInclude, hpath, hload]

lemma resolveChain_concat {source : Source} {names : List LocalName} {name : LocalName} {content : List UInt8}
    (hsource : base.resolveChain fs names = .ok source) (hpath : source.path? = some (path.follow names))
    (hread : fs.read (path.follow (names ++ [name])) = .ok content) :
    base.resolveChain fs (names ++ [name]) = .ok (read (path.follow (names ++ [name])) content) := by
  rw [Path.follow_concat] at hread ⊢
  rw [← resolveInclude_of_read hpath hread, resolveChain, List.foldlM_append]
  rw [resolveChain] at hsource
  rw [hsource]
  exact bind_pure (source.resolveInclude fs true name.text)

/-- Each file along a chain of readable files is found beside the one before. -/
theorem resolveChain_of_read (hbase : base.path? = some path) (names : List LocalName)
    (hread : ∀ chain, chain ≠ [] → chain <+: names → ∃ content, fs.read (path.follow chain) = .ok content) :
    ∃ source, base.resolveChain fs names = .ok source ∧ source.path? = some (path.follow names) := by
  induction names using List.reverseRecOn with
  | nil => exact ⟨base, rfl, hbase⟩
  | append_singleton names name ih =>
    obtain ⟨source, hsource, hpath⟩ :=
      ih fun chain hne hchain => hread chain hne (hchain.trans (List.prefix_append _ _))
    obtain ⟨content, hcontent⟩ := hread (names ++ [name]) (by simp) (List.prefix_refl _)
    exact ⟨_, resolveChain_concat hsource hpath hcontent, rfl⟩

/-- A chain of readable local names, from a file, leads to the file that stands in the directory of the first one
and all directories on the way, under the last name alone. -/
theorem resolveChain_nested (hbase : base.path? = some path) (hfile : path.fileName?.isSome)
    (front : List LocalName) (last : LocalName) :
    let names := front ++ [last]
    let target := path.follow names
    Path.anchor target.text.toList = Path.anchor path.text.toList ∧
    target.components = path.components.dropLast ++ names.flatMap (·.dirs) ++ [last.file] ∧
    ∀ fs : FileSystem,
      (∀ chain, chain ≠ [] → chain <+: names → ∃ content, fs.read (path.follow chain) = .ok content) →
        ∃ content, fs.read target = .ok content ∧
          base.resolveChain fs names =
            .ok { name := last.file, backing := .file target, loaded := some content } := by
  intro names target
  obtain ⟨hfront, hanchor, hdirs⟩ := Path.follow_components hfile front
  have htarget : target = (path.follow front).beside last.text := Path.follow_concat path front last
  obtain ⟨hanchor', hcomponents⟩ := Path.beside_components hfront last
  refine ⟨?_, ?_, ?_⟩
  · rw [htarget, hanchor', hanchor]
  · rw [htarget, hcomponents, hdirs, List.flatMap_append, List.flatMap_singleton, ← List.append_assoc]
  · intro fs hread
    have hname : (ofFile target).name = last.file := by
      rw [htarget, ofFile, Path.fileName?_beside hfront, Option.getD_some]
    obtain ⟨source, hsource, hpath⟩ := resolveChain_of_read hbase front fun chain hne hchain =>
      hread chain hne (hchain.trans (List.prefix_append _ _))
    obtain ⟨content, hcontent⟩ := hread names (by simp [names]) (List.prefix_refl _)
    refine ⟨content, hcontent, ?_⟩
    rw [← hname]
    exact resolveChain_concat hsource hpath hcontent

/-- Three files, from a path that is not written in the shortest way. -/
theorem resolveChain_nested_three :
    let base := Source.ofFile ⟨"./root//main.glsl"⟩
    let one : LocalName := ⟨["lib", "a"], "one", by decide +kernel⟩
    let two : LocalName := ⟨[], "two", by decide +kernel⟩
    let three : LocalName := ⟨["x"], "three", by decide +kernel⟩
    let fs : FileSystem := { FileSystem.empty with
      read := fun path =>
        if path.text ∈ ["./root/lib/a/one", "./root/lib/a/two", "./root/lib/a/x/three"] then .ok [97]
        else .error .notFound }
    base.path? = some ⟨"./root//main.glsl"⟩ ∧ (⟨"./root//main.glsl"⟩ : Path).fileName?.isSome ∧
      base.resolveChain fs [one, two, three] =
        .ok { name := "three", backing := .file ⟨"./root/lib/a/x/three"⟩, loaded := some [97] } := by
  intro base one two three fs
  have hpath : base.path? = some ⟨"./root//main.glsl"⟩ := rfl
  have hfile : (⟨"./root//main.glsl"⟩ : Path).fileName?.isSome := by decide +kernel
  have hone : (⟨"./root//main.glsl"⟩ : Path).follow [one] = ⟨"./root/lib/a/one"⟩ := by decide +kernel
  have htwo : (⟨"./root//main.glsl"⟩ : Path).follow [one, two] = ⟨"./root/lib/a/two"⟩ := by decide +kernel
  have hthree : (⟨"./root//main.glsl"⟩ : Path).follow [one, two, three] = ⟨"./root/lib/a/x/three"⟩ := by
    decide +kernel
  have hread (text : String)
      (h : text ∈ ["./root/lib/a/one", "./root/lib/a/two", "./root/lib/a/x/three"]) :
      fs.read ⟨text⟩ = .ok [97] := if_pos h
  obtain ⟨-, -, hchain⟩ := resolveChain_nested hpath hfile [one, two] three
  obtain ⟨content, hcontent, hsource⟩ := hchain fs fun chain hne hchain => by
    have hcases : chain = [one] ∨ chain = [one, two] ∨ chain = [one, two, three] := by
      simpa [hne] using (List.mem_inits chain ([one, two] ++ [three])).2 hchain
    rcases hcases with rfl | rfl | rfl
    · exact ⟨[97], by rw [hone]; exact hread _ (by simp)⟩
    · exact ⟨[97], by rw [htwo]; exact hread _ (by simp)⟩
    · exact ⟨[97], by rw [hthree]; exact hread _ (by simp)⟩
  have htarget : (⟨"./root//main.glsl"⟩ : Path).follow ([one, two] ++ [three]) =
      ⟨"./root/lib/a/x/three"⟩ := hthree
  rw [htarget] at hcontent hsource
  obtain rfl : [97] = content := Except.ok.inj ((hread _ (by simp)).symm.trans hcontent)
  exact ⟨hpath, hfile, hsource⟩

end Source

end Shading
