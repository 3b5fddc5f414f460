import ApiTypes.Output.Extract
import ApiTypes.Proofs.Compile.Beginning
import ApiTypes.Proofs.Layout.Format
import ApiTypes.Proofs.Lists
import ApiTypes.Proofs.Text.NonBlankLines

namespace ApiTypes.Output

open Text

def Target.imports : Target → String
  | .serverTypes => serverImports
  | .clientTypes => ""

theorem banner_eq {o : Options} {b : String} (hb : o.bannerComment = some b) (hne : b ≠ "")
    (t : Target) : banner o t = b ++ t.imports := by
  unfold banner
  dsimp only
  rw [hb, Option.getD_some, if_neg hne]
  cases t with
  | serverTypes => rfl
  | clientTypes => exact (String.append_empty).symm

/-- The imports of a server begin and end with a line break. -/
theorem serverImports_breaks :
    serverImports.toList.head? = some '\n' ∧ serverImports.toList.getLast? = some '\n' := by
  -- line by line, because the characters of the whole text take long to compute
  unfold serverImports
  rw [String.toList_intercalate]
  exact ⟨by decide +kernel, by decide +kernel⟩

theorem renderAll_unformatted (settings : Settings) (text : String) :
    renderAll none settings text =
      .ok (settings.outputs.map fun o => (o, banner settings.options o.target ++ text)) := by
  unfold renderAll
  induction settings.outputs with
  | nil => rfl
  | cons o os ih =>
    rw [List.mapM_cons, ih]
    rfl

section render

variable {read : String → Id (Option String)} {workDir : String} {rs : Route.Routes}
variable {ds : List (String × Json)} {settings : Settings} {compiled : Compile.Compiled}
variable {texts : List (File × String)}

/-- What is rendered is compiled first. -/
theorem compiled_of_render (h : render read workDir rs ds settings = .ok (compiled, texts)) :
    (Compile.routes workDir rs ds settings.ignoreHead settings.options .empty).1 = .ok compiled ∧
      renderAll (Style.resolve read workDir settings.options) settings compiled.text =
        .ok texts := by
  unfold render at h
  cases hc : (Compile.routes workDir rs ds settings.ignoreHead settings.options .empty).1 with
  | error e =>
    rw [hc] at h
    cases h
  | ok c =>
    rw [hc] at h
    change (renderAll (Style.resolve read workDir settings.options) settings c.text).map _ = _ at h
    cases ht : renderAll (Style.resolve read workDir settings.options) settings c.text with
    | error e =>
      rw [ht] at h
      cases h
    | ok ts =>
      rw [ht] at h
      obtain ⟨rfl, rfl⟩ := Prod.mk.inj (Except.ok.inj h)
      exact ⟨rfl, ht⟩

/-- The outputs are rendered one by one, and no text is empty: the declarations can be seen. -/
theorem forall₂_of_render (h : render read workDir rs ds settings = .ok (compiled, texts)) :
    List.Forall₂ (fun o p => p.1 = o ∧ p.2 ≠ "") settings.outputs texts := by
  obtain ⟨hcompiled, htexts⟩ := compiled_of_render h
  obtain ⟨w, c, s, htext, hc, -⟩ := Compile.exists_append_of_routes hcompiled
  refine (List.forall₂_of_mapM_ok htexts).imp fun o p hp => ?_
  cases hout : renderOne (Style.resolve read workDir settings.options) settings.options
      compiled.text o with
  | error e =>
    rw [hout] at hp
    cases hp
  | ok text =>
    rw [hout] at hp
    obtain rfl := Except.ok.inj hp
    have hink : Inked (banner settings.options o.target ++ compiled.text).toList :=
      ⟨c, by simp [htext], hc⟩
    exact ⟨rfl, Layout.format_ne_empty hink hout⟩

theorem map_fst_of_render (h : render read workDir rs ds settings = .ok (compiled, texts)) :
    texts.map Prod.fst = settings.outputs := by
  have htexts := forall₂_of_render h
  clear h
  generalize settings.outputs = outputs at htexts ⊢
  induction htexts with
  | nil => rfl
  | cons hp _ ih => rw [List.map_cons, ih, hp.1]

theorem resolve_unformatted {o : Options} (h : o.format = some false) :
    Style.resolve read workDir o = none := by
  have hformats : o.formats = false := by simp [Options.formats, h]
  unfold Style.resolve
  rw [if_neg (by simp [hformats])]
  rfl

/-- Unformatted outputs have the lines of the banner, then those of the imports of a server, then
those of the declarations, exactly if there is a line break before the declarations: from the
imports, from the banner or from the declarations themselves. -/
theorem nonBlankLines_render_iff {b : String} (hb : settings.options.bannerComment = some b)
    (hne : b ≠ "") (hformat : settings.options.format = some false)
    (h : render read workDir rs ds settings = .ok (compiled, texts)) :
    texts.map Prod.fst = settings.outputs ∧
      ∀ p ∈ texts, (nonBlankLines p.2.toList = nonBlankLines b.toList ++
          nonBlankLines p.1.target.imports.toList ++ nonBlankLines compiled.text.toList ↔
        p.1.target = .serverTypes ∨ b.toList.getLast? = some '\n' ∨
          compiled.text.toList.head? = some '\n') := by
  obtain ⟨hcompiled, htexts⟩ := compiled_of_render h
  rw [resolve_unformatted hformat, renderAll_unformatted] at htexts
  obtain rfl := Except.ok.inj htexts
  refine ⟨by simp [Function.comp_def], fun p hp => ?_⟩
  obtain ⟨o, -, rfl⟩ := List.mem_map.1 hp
  obtain ⟨c, s, hs, hc⟩ := Compile.exists_text_of_routes hcompiled
  have htext : (banner settings.options o.target ++ compiled.text).toList =
      b.toList ++ o.target.imports.toList ++ compiled.text.toList := by
    rw [banner_eq hb hne, String.toList_append, String.toList_append]
  dsimp only
  rw [htext]
  -- the imports of a server bring their own line breaks; a client has nothing between banner and
  -- text
  cases o.target with
  | serverTypes =>
    obtain ⟨hhead, hlast⟩ := serverImports_breaks
    have hbehind : (b.toList ++ (Target.imports .serverTypes).toList).getLast? = some '\n' := by
      rw [List.getLast?_append]
      change serverImports.toList.getLast?.or _ = _
      rw [hlast]
      rfl
    have hlines := nonBlankLines_append_of_getLast? hbehind compiled.text.toList
    rw [nonBlankLines_append_of_head? (w := (Target.imports .serverTypes).toList) _ hhead] at hlines
    exact ⟨fun _ => .inl rfl, fun _ => hlines⟩
  | clientTypes =>
    have hnil : (Target.imports .clientTypes).toList = [] := rfl
    rw [hnil, nonBlankLines_nil, List.append_nil, List.append_nil]
    have hbne : b.toList ≠ [] := fun he => hne (String.toList_eq_nil_iff.1 he)
    constructor
    · -- with no break on either side the last line of the banner takes in the first declaration
      intro heq
      by_contra hno
      simp only [reduceCtorEq, false_or, not_or] at hno
      obtain ⟨hlast, hhead⟩ := hno
      rw [hs] at heq hhead
      have hblank : isBlank c = false := hc.resolve_right fun hn => hhead (by rw [hn]; rfl)
      exact nonBlankLines_append_ne hblank hbne hlast heq
    · rintro (hserver | hlast | hhead)
      · cases hserver
      · exact nonBlankLines_append_of_getLast? hlast _
      · exact nonBlankLines_append_of_head? _ hhead

def commented : Settings where
  enabled := true
  ignoreHead := false
  outputs := [⟨"client.ts", .clientTypes⟩, ⟨"server.ts", .serverTypes⟩]
  options := { Options.default with
    bannerComment := some "// generated", format := some false, cwd := some "/app" }

def indexRoutes : Route.Routes := [("/", [⟨"/", .one "GET", none⟩])]

theorem nonBlankLines_render_iff_commented :
    ∃ compiled texts,
      render (m := Id) (fun _ => none) "/" indexRoutes [] commented = .ok (compiled, texts) ∧
        texts.map Prod.fst = commented.outputs ∧
        ∀ p ∈ texts, (nonBlankLines p.2.toList = nonBlankLines "// generated".toList ++
            nonBlankLines p.1.target.imports.toList ++ nonBlankLines compiled.text.toList ↔
          p.1.target = .serverTypes ∨ "// generated".toList.getLast? = some '\n' ∨
            compiled.text.toList.head? = some '\n') := by
  have hok : (render (m := Id) (fun _ => none) "/" indexRoutes [] commented).toOption.isSome =
      true := by
    decide +kernel
  cases h : render (m := Id) (fun _ => none) "/" indexRoutes [] commented with
  | error e =>
    rw [h] at hok
    cases hok
  | ok r =>
    have hlines := nonBlankLines_render_iff (b := "// generated") rfl (by decide) rfl h
    exact ⟨r.1, r.2, rfl, hlines⟩

/-- A banner without a line break takes the first line of an interface into its last line. -/
theorem not_nonBlankLines_render : ¬ ∀ (read : String → Id (Option String)) (workDir : String)
    (rs : Route.Routes) (ds : List (String × Json)) (settings : Settings) (b : String)
    (compiled : Compile.Compiled) (texts : List (File × String)),
      settings.options.bannerComment = some b → b ≠ "" → settings.options.format = some false →
      render read workDir rs ds settings = .ok (compiled, texts) →
      ∀ p ∈ texts, nonBlankLines p.2.toList = nonBlankLines b.toList ++
        nonBlankLines p.1.target.imports.toList ++ nonBlankLines compiled.text.toList := by
  intro hall
  have hne : (Except.map (fun r : Compile.Compiled × List (File × String) =>
      r.2.any fun p => p.1.target = .clientTypes ∧ nonBlankLines p.2.toList ≠
        nonBlankLines "// generated".toList ++ nonBlankLines r.1.text.toList)
      (render (m := Id) (fun _ => none) "/" indexRoutes [] commented)).toOption = some true := by
    decide +kernel
  cases h : render (m := Id) (fun _ => none) "/" indexRoutes [] commented with
  | error e =>
    rw [h] at hne
    cases hne
  | ok r =>
    rw [h] at hne
    -- the client's output has `// generated` and the first declaration on one line
    obtain ⟨p, hp, hdiffers⟩ := List.any_eq_true.1 (Option.some.inj hne)
    obtain ⟨hclient, hdiffers⟩ := of_decide_eq_true hdiffers
    have hlines := hall _ "/" indexRoutes [] commented "// generated" r.1 r.2 rfl (by decide) rfl h
      p hp
    rw [hclient] at hlines
    exact hdiffers (by simpa [Target.imports] using hlines)

end render

end ApiTypes.Output
