import ChipForge.Wiring.Compiler.Constant

/-! Constants that share a key say the same thing: their values read alike in the save format, with the fields of tables
in order. -/
namespace ChipForge.Json

variable {style : Style}

mutual

/-- On one line the text of a value depends neither on what stands before it nor on its level. -/
theorem writeAt_start (h : style.indent=none) :
    ∀ (v : Json) (level : Nat) (acc : String), writeAt style level acc v=acc++writeAt style 0 "" v
  | .null, level, acc => by simp [writeAt]
  | .bool true, level, acc => by simp [writeAt]
  | .bool false, level, acc => by simp [writeAt]
  | .int n, level, acc => by simp [writeAt]
  | .float x, level, acc => by simp [writeAt]
  | .str s, level, acc => by simp [writeAt]
  | .arr [], level, acc => by simp [writeAt]
  | .arr (v::rest), level, acc => by
    simp only [writeAt,Style.breakLine,h,String.append_empty,String.empty_append]
    rw [writeAt_start h v (level+1),writeItems_start h rest (level+1),writeAt_start h v (0+1),
      writeItems_start h rest (0+1)]
    simp only [String.append_assoc]
  | .obj [], level, acc => by simp [writeAt]
  | .obj ((k,v)::rest), level, acc => by
    simp only [writeAt,Style.breakLine,h,String.append_empty,String.empty_append]
    rw [writeAt_start h v (level+1),writeFields_start h rest (level+1),writeAt_start h v (0+1),
      writeFields_start h rest (0+1)]
    simp only [String.append_assoc]

theorem writeItems_start (h : style.indent=none) :
    ∀ (vs : List Json) (level : Nat) (acc : String), writeItems style level acc vs=acc++writeItems style 0 "" vs
  | [], level, acc => by simp [writeItems]
  | v::rest, level, acc => by
    simp only [writeItems,Style.breakLine,h,String.append_empty,String.empty_append]
    rw [writeAt_start h v level,writeItems_start h rest level,writeItems_start h rest 0 (writeAt style 0 _ v),
      writeAt_start h v 0 style.itemGap]
    simp only [String.append_assoc]

theorem writeFields_start (h : style.indent=none) :
    ∀ (fs : List (String×Json)) (level : Nat) (acc : String),
      writeFields style level acc fs=acc++writeFields style 0 "" fs
  | [], level, acc => by simp [writeFields]
  | (k,v)::rest, level, acc => by
    simp only [writeFields,Style.breakLine,h,String.append_empty,String.empty_append]
    rw [writeAt_start h v level,writeFields_start h rest level,writeFields_start h rest 0 (writeAt style 0 _ v),
      writeAt_start h v 0 (style.itemGap++writeString style.asciiOnly k++style.nameGap)]
    simp only [String.append_assoc]

end

theorem writeAt_eq (h : style.indent=none) (v : Json) (level : Nat) (acc : String) :
    writeAt style level acc v=acc++write style v :=
  writeAt_start h v level acc

end ChipForge.Json

namespace ChipForge.Wiring
open Script

/-- What a constant says: its text in the save format with the fields of tables in order, or else in running words. -/
def reading (v : Literal) : String :=
  match sortedJson? v with
  | some j => Json.write Json.Style.spaced.unicode j
  | none => v.plain

private def keyStart (t : Option GateType) : String :=
  "\x7b\"data_type\": " ++ (Json.write Json.Style.spaced.unicode (Issue.typeJson t) ++ ", \"value\": ")

private theorem constantKey_some {v : Literal} {j : Json} (h : sortedJson? v=some j) (t : Option GateType) :
    constantKey v t=keyStart t++(reading v ++ "\x7d") := by
  have hindent : Json.Style.spaced.unicode.indent=none := rfl
  have hstart : "" ++ "\x7b" ++ Json.Style.spaced.unicode.breakLine (0+1) ++
      Json.writeString Json.Style.spaced.unicode.asciiOnly "data_type" ++ Json.Style.spaced.unicode.nameGap =
        "\x7b\"data_type\": " := by decide
  have hmiddle : Json.Style.spaced.unicode.itemGap++(Json.Style.spaced.unicode.breakLine (0+1) ++
      (Json.writeString Json.Style.spaced.unicode.asciiOnly "value" ++ Json.Style.spaced.unicode.nameGap)) =
        ", \"value\": " := by decide
  have hend : Json.Style.spaced.unicode.breakLine 0 ++ "\x7d" = "\x7d" := by decide
  unfold constantKey reading keyStart
  rw [h]
  dsimp only
  rw [Json.write,Json.writeAt,Json.writeFields,Json.writeFields,Json.writeAt_eq hindent,Json.writeAt_eq hindent,hstart,
    ← hmiddle]
  simp only [String.append_assoc,hend]

private theorem constantKey_none {v : Literal} (h : sortedJson? v=none) (t : Option GateType) :
    constantKey v t=(match t with | some t => t.name | none => "None")++(":" ++ reading v) := by
  unfold constantKey reading
  rw [h]
  exact String.append_assoc ..

/-- A key without a type tells what the constant says. -/
theorem reading_eq_of_constantKey {v w : Literal} {t : Option GateType} (h : constantKey v none=constantKey w t) :
    reading v=reading w := by
  have htext := congrArg String.toList h
  rw [← String.toList_inj]
  cases hv : sortedJson? v with
  | some j =>
    cases hw : sortedJson? w with
    | some k =>
      rw [constantKey_some hv,constantKey_some hw] at htext
      cases t with
      | none => simpa using htext
      | some t =>
        -- The type is written as a text in one key and as a word in the other.
        exfalso
        simp [keyStart,Issue.typeJson,Json.write,Json.writeAt,Json.writeString] at htext
    | none =>
      exfalso
      rw [constantKey_some hv,constantKey_none hw] at htext
      cases t with
      | none => simp [keyStart] at htext
      | some t => cases t <;> simp [keyStart,GateType.name] at htext
  | none =>
    cases hw : sortedJson? w with
    | some k =>
      exfalso
      rw [constantKey_none hv,constantKey_some hw] at htext
      simp [keyStart] at htext
    | none =>
      rw [constantKey_none hv,constantKey_none hw] at htext
      cases t with
      | none => simpa using htext
      | some t =>
        exfalso
        cases t <;> simp [GateType.name] at htext

end ChipForge.Wiring
