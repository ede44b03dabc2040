import ObserverRelay.Proofs.Json.Decoding
import ObserverRelay.Proofs.Json.Layout
import ObserverRelay.Records.Format
/-!
# Records are read as they were written

The text of records spells their value, and the decoder takes the value as the records it was
made of, whatever characters the texts in it hold.
-/
namespace ObserverRelay

open Json

variable {depth : Nat}

theorem ContractRecord.whole_toValue (c : ContractRecord) : c.toValue.Whole := by
  refine .object ?_
  simp only [List.forall_mem_cons]
  exact ⟨.string c.tag, .string c.address, by simp⟩

theorem ContractRecord.takes_decoder (depth : Nat) (c : ContractRecord) :
    decoder.Takes (depth + 1) c.toValue c :=
  Decoder.takes_record
    (.more rfl rfl (Decoder.Slot.takes_of (Decoder.takes_string depth c.tag) _ _ _ _ _)
      (.more rfl rfl (Decoder.Slot.takes_of (Decoder.takes_string depth c.address) _ _ _ _ _)
        (.done _))) rfl

namespace Records

theorem whole_ofTexts (xs : List String) : (Value.ofTexts xs).Whole := by
  refine .array ?_
  simp only [List.forall_mem_map]
  exact fun x _ => .string x

theorem whole_toValue (r : Records) : r.toValue.Whole := by
  refine .object ?_
  simp only [List.forall_mem_cons]
  refine ⟨.array ?_, whole_ofTexts _, whole_ofTexts _, whole_ofTexts _, whole_ofTexts _, by simp⟩
  simp only [List.forall_mem_map]
  exact fun c _ => c.whole_toValue

theorem takes_textsDecoder (depth : Nat) (xs : List String) :
    textsDecoder.Takes (depth + 1) (.ofTexts xs) xs :=
  Decoder.takes_list_map fun x _ => Decoder.takes_string depth x

theorem takes_decoder (depth : Nat) (r : Records) : decoder.Takes (depth + 3) r.toValue r := by
  have contracts : (Decoder.list ContractRecord.decoder).Takes (depth + 2)
      (.array (r.contracts.map ContractRecord.toValue)) r.contracts :=
    Decoder.takes_list_map fun c _ => c.takes_decoder depth
  have texts := takes_textsDecoder (depth + 1)
  exact Decoder.takes_record
    (.more rfl rfl (Decoder.Slot.takes_of contracts _ _ _ _ _)
      (.more rfl rfl (Decoder.Slot.takes_of (texts r.customCurrencies) _ _ _ _ _)
        (.more rfl rfl (Decoder.Slot.takes_of (texts r.nonFungibleTokens) _ _ _ _ _)
          (.more rfl rfl (Decoder.Slot.takes_of (texts r.semiFungibleTokens) _ _ _ _ _)
            (.more rfl rfl (Decoder.Slot.takes_of (texts r.runTransactions) _ _ _ _ _)
              (.done _)))))) rfl

/-- Records are read back from their text. -/
@[simp] theorem parse_text (r : Records) : parse (Bytes.ofText r.text) = .ok r := by
  have stops : Stops (Bytes.ofText "\n") := stops_lineBreak 0 []
  have spelled := spelled_indented r.whole_toValue 0 stops
  have document : Bytes.ofText r.text =
      Bytes.ofChars (r.toValue.indentedChars 0) ++ Bytes.ofText "\n" := by
    rw [text, Bytes.ofText_append, Value.renderIndented, Bytes.ofText_ofList_eq]
  rw [parse, document]
  exact (takes_decoder 124 r).parse spelled rfl

end Records

end ObserverRelay
