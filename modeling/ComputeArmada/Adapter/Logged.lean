import ComputeArmada.Adapter.OneQueue

/-!
# The line of a failed read

* `failedLine` : the line of `readFailed` before the token is masked, `warned_readFailed` : the one it writes;
* `warn_masked` : that is free of the token, unless the token is `e`, a letter of its own mask;
* `warn_oneLine_iff` : and free of control characters, unless the path or the reason holds a delete, which
  `oneLine` finds and `JSON.stringify` leaves as it is.
-/

namespace ComputeArmada.Adapter

/-- What `readFailed` logs, before `replaceAll`. -/
def failedLine (id : SandboxId) (path code why : String) : String :=
  "marimohub-compute-armada: sandbox " ++ id ++ " could not read " ++ path ++ " (" ++ code ++ "): " ++ why

theorem failedLine_toList (id : SandboxId) (path code why : String) :
    (failedLine id path code why).toList = "marimohub-compute-armada: sandbox ".toList ++ id.toList ++
      " could not read ".toList ++ path.toList ++ " (".toList ++ code.toList ++ "): ".toList ++ why.toList := by
  unfold failedLine
  rw [String.toList_append, String.toList_append, String.toList_append, String.toList_append,
    String.toList_append, String.toList_append, String.toList_append]

theorem mem_failedLine {id : SandboxId} {path code why : String} {c : Char}
    (h : c ∈ path.toList ∨ c ∈ why.toList) : c ∈ (failedLine id path code why).toList := by
  rw [failedLine_toList]
  rcases h with h | h
  · exact List.mem_append_left _ (List.mem_append_left _ (List.mem_append_left _ (List.mem_append_left _
      (List.mem_append_right _ h))))
  · exact List.mem_append_right _ h

section
variable (crypto : Crypto) (config : ArmadaConfig) (made : Made) (path code why : String) (s : Shared)

/-- `readFailed` writes one line, and that is all it does. -/
theorem warned_readFailed :
    (Async.advance (readFailed crypto config made path code why) s).1 =
      { s with warned := s.warned ++ [(failedLine made.id (oneLine path) code (oneLine why)).replace
          (agentToken crypto config.agentTokenSecret made.id) "<token>"] } := rfl

end

/-! ## The token -/

/-- What `digest('hex')` gives: lower-case hexadecimal digits, and not none. -/
structure IsHexToken (token : String) : Prop where
  nonempty : token ≠ ""
  digit : ∀ c ∈ token.toList, c ∈ "0123456789abcdef".toList

theorem IsHexToken.not_mem {token : String} (h : IsHexToken token) {c : Char}
    (hc : c ∉ "0123456789abcdef".toList) : c ∉ token.toList := fun hmem => hc (h.digit c hmem)

theorem IsHexToken.toList_ne_nil {token : String} (h : IsHexToken token) : token.toList ≠ [] :=
  fun hnil => h.nonempty (String.toList_eq_nil_iff.mp hnil)

/-- Of the letters of the mask, only `e` is a digit. -/
theorem IsHexToken.not_isInfix_mask {token : String} (h : IsHexToken token) (he : token ≠ "e") :
    ¬ token.toList <:+: "token".toList := by
  intro hin
  have hne := h.toList_ne_nil
  have hkn : token.toList <:+: "en".toList := by
    rcases @Text.isInfix_of_isInfix_append_cons _ _ "to".toList "en".toList _ hin
      (h.not_mem (by decide)) with hto | hen
    · rcases @Text.isInfix_of_isInfix_append_cons _ _ "t".toList [] _ hto
        (h.not_mem (by decide)) with ht | hnil
      · rcases @Text.isInfix_of_isInfix_append_cons _ _ [] [] _ ht
          (h.not_mem (by decide)) with hnil | hnil <;> exact absurd (List.infix_nil.mp hnil) hne
      · exact absurd (List.infix_nil.mp hnil) hne
    · exact hen
  rcases @Text.isInfix_of_isInfix_append_cons _ _ "e".toList [] _ hkn
    (h.not_mem (by decide)) with hletter | hnil
  · rcases List.infix_cons_iff.mp hletter with hpre | hnil
    · have hlen := hpre.length_le
      have heq : token.toList = "e".toList := by
        refine hpre.eq_of_length (le_antisymm hlen ?_)
        exact List.length_pos_iff.mpr hne
      exact he (String.toList_inj.mp heq)
    · exact absurd (List.infix_nil.mp hnil) hne
  · exact absurd (List.infix_nil.mp hnil) hne

theorem replaced_mask {token : String} (h : IsHexToken token) (line : String) :
    Text.Replaced token.toList "<token>".toList line.toList (line.replace token "<token>").toList :=
  Text.replaced_replace line token "<token>" h.nonempty

section
variable (crypto : Crypto) (config : ArmadaConfig) (made : Made) (path code why : String) (s : Shared)

/-- **The token is in no line that a failed read logs**, whatever the path and the reason hold: the line is
the one before masking with every occurrence of the token replaced, from the left and not overlapping, and no
two pieces of it join to the token again. -/
theorem warn_masked (htoken : IsHexToken (agentToken crypto config.agentTokenSecret made.id))
    (he : agentToken crypto config.agentTokenSecret made.id ≠ "e") :
    ∃ line, (Async.advance (readFailed crypto config made path code why) s).1.warned = s.warned ++ [line] ∧
      ¬ (agentToken crypto config.agentTokenSecret made.id).toList <:+: line.toList ∧
      Text.Replaced (agentToken crypto config.agentTokenSecret made.id).toList "<token>".toList
        (failedLine made.id (oneLine path) code (oneLine why)).toList line.toList := by
  have hreplaced := replaced_mask htoken (failedLine made.id (oneLine path) code (oneLine why))
  refine ⟨_, congrArg Shared.warned (warned_readFailed ..), ?_, hreplaced⟩
  exact @Text.Replaced.not_isInfix _ _ _ '<' '>' "token".toList hreplaced (htoken.not_mem (by decide))
    (htoken.not_mem (by decide)) htoken.toList_ne_nil (htoken.not_isInfix_mask he)

end

theorem isHexToken_digests : IsHexToken (agentToken digests mappedConfig.agentTokenSecret "s") where
  nonempty := by decide
  digit := by decide

/-- A path that is the token. -/
theorem warn_masked_path :
    ∃ line, (Async.advance (readFailed digests mappedConfig (created 0) (agentToken digests tokenSecret "s")
        "READ_FAILED" "no such file") .init).1.warned = [line] ∧
      ¬ (agentToken digests tokenSecret "s").toList <:+: line.toList ∧
      Text.Replaced (agentToken digests tokenSecret "s").toList "<token>".toList
        (failedLine "s" (oneLine (agentToken digests tokenSecret "s")) "READ_FAILED" (oneLine "no such file")).toList
        line.toList :=
  warn_masked digests mappedConfig (created 0) (agentToken digests tokenSecret "s") "READ_FAILED" "no such file" .init
    isHexToken_digests (by decide)

/-- Every token is `e`. -/
def letterE : Crypto where
  hmacSha256 _ _ := "e"
  sha256 data := data
  upperCase := .ascii

/-- The mask itself holds the token `e`. -/
theorem warn_letterE :
    IsHexToken (agentToken letterE mappedConfig.agentTokenSecret (created 0).id) ∧
    ∃ line, (Async.advance (readFailed letterE mappedConfig (created 0) "f" "READ_FAILED" "no such file")
        .init).1.warned = [line] ∧
      (agentToken letterE mappedConfig.agentTokenSecret (created 0).id).toList <:+: line.toList := by
  have htoken : IsHexToken "e" := ⟨by decide, by decide⟩
  refine ⟨htoken, _, rfl, ?_⟩
  have hmask := (replaced_mask htoken _).isInfix_new htoken.toList_ne_nil
    (show "e".toList <:+: (failedLine "s" (oneLine "f") "READ_FAILED" (oneLine "no such file")).toList by decide)
  exact List.IsInfix.trans (by decide) hmask

/-! ## Control characters -/

/-- The class that `oneLine` looks for. -/
def isControl (c : Char) : Prop := c.toNat < 32 ∨ c.toNat = 127

instance (c : Char) : Decidable (isControl c) := inferInstanceAs (Decidable (_ ∨ _))

/-- The last character of the class. -/
def delete : Char := Char.ofNat 127

/-- `out` is `cs` with some text for each control character, and every other character as it was. -/
inductive Kept : List Char → List Char → Prop
  | nil : Kept [] []
  | keep {c : Char} {cs out : List Char} (hc : ¬ isControl c) (h : Kept cs out) : Kept (c :: cs) (c :: out)
  | escape {c : Char} {cs out : List Char} (hc : isControl c) (text : List Char) (h : Kept cs out) :
      Kept (c :: cs) (text ++ out)

theorem Kept.append {cs cs' out out' : List Char} (h : Kept cs out) (h' : Kept cs' out') :
    Kept (cs ++ cs') (out ++ out') := by
  induction h with
  | nil => exact h'
  | keep hc _ ih => exact .keep hc ih
  | escape hc text _ ih =>
    rw [List.append_assoc]
    exact .escape hc text ih

theorem Kept.refl {cs : List Char} (h : ∀ c ∈ cs, ¬ isControl c) : Kept cs cs := by
  induction cs with
  | nil => exact .nil
  | cons c cs ih => exact .keep (h c (List.mem_cons_self ..)) (ih fun x hx => h x (List.mem_cons_of_mem _ hx))

theorem oneLine_toList (text : String) :
    (oneLine text).toList = text.toList.flatMap fun c => if isControl c then Js.jsonEscape c else [c] :=
  String.toList_ofList

theorem kept_oneLine (text : String) : Kept text.toList (oneLine text).toList := by
  rw [oneLine_toList]
  induction text.toList with
  | nil => exact .nil
  | cons c cs ih =>
    rw [List.flatMap_cons]
    split
    · rename_i hc
      exact .escape hc _ ih
    · rename_i hc
      exact .keep hc ih

theorem jsonEscape_low : ∀ n < 32, ∀ x ∈ Js.jsonEscape (Char.ofNat n), ¬ isControl x := by decide

/-- Of the class, `JSON.stringify` escapes all but the delete. -/
theorem control_of_mem_oneLine {text : String} {x : Char} (hx : x ∈ (oneLine text).toList) (hcontrol : isControl x) :
    delete ∈ text.toList := by
  rw [oneLine_toList] at hx
  obtain ⟨c, hc, hx⟩ := List.mem_flatMap.mp hx
  by_cases hclass : isControl c
  · rw [if_pos hclass] at hx
    rcases hclass with hlow | hdelete
    · rw [← Char.ofNat_toNat c] at hx
      exact absurd hcontrol (jsonEscape_low c.toNat hlow x hx)
    · have hc' : c = delete := by rw [← Char.ofNat_toNat c, hdelete]; rfl
      exact hc' ▸ hc
  · rw [if_neg hclass, List.mem_singleton] at hx
    exact absurd (hx ▸ hcontrol) hclass

theorem delete_mem_oneLine {text : String} (h : delete ∈ text.toList) : delete ∈ (oneLine text).toList := by
  rw [oneLine_toList]
  exact List.mem_flatMap.mpr ⟨delete, h, by decide⟩

theorem not_isControl_code {code : String} (hcode : code ∈ ["READ_FAILED", "BACKEND_ERROR"]) :
    ∀ c ∈ code.toList, ¬ isControl c :=
  (by decide : ∀ code ∈ ["READ_FAILED", "BACKEND_ERROR"], ∀ c ∈ code.toList, ¬ isControl c) code hcode

section
variable {id code : String} (hid : ∀ c ∈ id.toList, ¬ isControl c)
  (hcode : code ∈ ["READ_FAILED", "BACKEND_ERROR"])
include hid hcode

/-- The fixed text has no control characters. -/
theorem control_of_mem_failedLine {path why : String} {c : Char} (hc : c ∈ (failedLine id path code why).toList)
    (hcontrol : isControl c) : c ∈ path.toList ∨ c ∈ why.toList := by
  have hfixed : ∀ text ∈ ["marimohub-compute-armada: sandbox ", " could not read ", " (", "): "],
      ∀ c ∈ text.toList, ¬ isControl c := by decide
  rw [failedLine_toList] at hc
  simp only [List.mem_append] at hc
  rcases hc with (((((((hc | hc) | hc) | hc) | hc) | hc) | hc) | hc)
  · exact absurd hcontrol (hfixed "marimohub-compute-armada: sandbox " (by decide) c hc)
  · exact absurd hcontrol (hid c hc)
  · exact absurd hcontrol (hfixed " could not read " (by decide) c hc)
  · exact .inl hc
  · exact absurd hcontrol (hfixed " (" (by decide) c hc)
  · exact absurd hcontrol (not_isControl_code hcode c hc)
  · exact absurd hcontrol (hfixed "): " (by decide) c hc)
  · exact .inr hc

theorem kept_failedLine (path why : String) :
    Kept (failedLine id path code why).toList (failedLine id (oneLine path) code (oneLine why)).toList := by
  rw [failedLine_toList, failedLine_toList]
  refine .append (.append (.append (.append (.append (.append (.append ?_ ?_) ?_) ?_) ?_) ?_) ?_) ?_
  · exact .refl (by decide)
  · exact .refl hid
  · exact .refl (by decide)
  · exact kept_oneLine path
  · exact .refl (by decide)
  · exact .refl (not_isControl_code hcode)
  · exact .refl (by decide)
  · exact kept_oneLine why

end

section
variable (crypto : Crypto) (config : ArmadaConfig) (made : Made) (path code why : String) (s : Shared)

/-- **A failed read logs one line, without control characters and with all else as it was, exactly when
neither the path nor the reason holds U+007F**: `oneLine` looks for it, but `JSON.stringify` does not
escape it. -/
theorem warn_oneLine_iff (htoken : IsHexToken (agentToken crypto config.agentTokenSecret made.id))
    (hid : ∀ c ∈ made.id.toList, ¬ isControl c) (hcode : code ∈ ["READ_FAILED", "BACKEND_ERROR"]) :
    ∃ line, (Async.advance (readFailed crypto config made path code why) s).1.warned = s.warned ++ [line] ∧
      (((∀ c ∈ line.toList, ¬ isControl c) ∧
        ∃ unmasked, Kept (failedLine made.id path code why).toList unmasked ∧
          Text.Replaced (agentToken crypto config.agentTokenSecret made.id).toList "<token>".toList unmasked
            line.toList) ↔
        delete ∉ path.toList ∧ delete ∉ why.toList) := by
  have hreplaced := replaced_mask htoken (failedLine made.id (oneLine path) code (oneLine why))
  have hdelete : delete ∈ (failedLine made.id (oneLine path) code (oneLine why)).toList →
      delete ∈ ((failedLine made.id (oneLine path) code (oneLine why)).replace
        (agentToken crypto config.agentTokenSecret made.id) "<token>").toList := fun hmem =>
    hreplaced.mem hmem (htoken.not_mem (by decide))
  refine ⟨_, congrArg Shared.warned (warned_readFailed ..), ?_, ?_⟩
  · rintro ⟨hnone, -⟩
    refine ⟨fun hpath => hnone delete (hdelete ?_) (by decide), fun hwhy => hnone delete (hdelete ?_) (by decide)⟩
    · exact mem_failedLine (.inl (delete_mem_oneLine hpath))
    · exact mem_failedLine (.inr (delete_mem_oneLine hwhy))
  · rintro ⟨hpath, hwhy⟩
    refine ⟨fun c hc hcontrol => ?_, _, kept_failedLine hid hcode path why, hreplaced⟩
    rcases hreplaced.mem_or hc with hc | hc
    · rcases control_of_mem_failedLine hid hcode hc hcontrol with hc | hc
      · exact hpath (control_of_mem_oneLine hc hcontrol)
      · exact hwhy (control_of_mem_oneLine hc hcontrol)
    · exact absurd hcontrol ((by decide : ∀ c ∈ "<token>".toList, ¬ isControl c) c hc)

end

/-- A newline in the path, a tab in the reason. -/
theorem warn_oneLine_newline :
    ∃ line, (Async.advance (readFailed digests mappedConfig (created 0) "a\nb" "READ_FAILED" "no\tsuch file")
        .init).1.warned = [line] ∧
      (((∀ c ∈ line.toList, ¬ isControl c) ∧
        ∃ unmasked, Kept (failedLine "s" "a\nb" "READ_FAILED" "no\tsuch file").toList unmasked ∧
          Text.Replaced (agentToken digests tokenSecret "s").toList "<token>".toList unmasked line.toList) ↔
        delete ∉ "a\nb".toList ∧ delete ∉ "no\tsuch file".toList) :=
  warn_oneLine_iff digests mappedConfig (created 0) "a\nb" "READ_FAILED" "no\tsuch file" .init isHexToken_digests
    (by decide) (by decide)

/-- A workspace file whose name is a delete. -/
theorem warn_delete :
    (∀ c ∈ (created 0).id.toList, ¬ isControl c) ∧
    ∃ line, (Async.advance (readFailed digests mappedConfig (created 0) (String.singleton delete) "READ_FAILED"
        "no such file") .init).1.warned = [line] ∧
      delete ∈ line.toList ∧ isControl delete := by
  refine ⟨by decide, _, rfl, ?_, by decide⟩
  exact (replaced_mask isHexToken_digests _).mem
    (by decide : delete ∈ (failedLine "s" (oneLine (String.singleton delete)) "READ_FAILED"
      (oneLine "no such file")).toList) (by decide)

end ComputeArmada.Adapter
