import Dwara.Ai.Conversation

/-! Anthropic requests through the canonical request and back. -/

namespace Dwara.Ai
open Dwara.Lib

section Lookups
variable {key key' : String} {value : Option Json} {rest : List (String × Json)}

theorem get_object (fields : List (String × Json)) (key : String) : (Json.object fields).get key = fields.lookup key := rfl

theorem lookup_field : (field key value ++ rest).lookup key = value.or (rest.lookup key) := by
  cases value with
  | none => rfl
  | some v => simp [field]

theorem lookup_field_of_ne (h : key ≠ key') : (field key' value ++ rest).lookup key = rest.lookup key := by
  cases value with
  | none => rfl
  | some v =>
    show ((key',v) :: rest).lookup key = rest.lookup key
    rw [List.lookup_cons,beq_false_of_ne h]

theorem lookup_field_alone : (field key value).lookup key = value := by
  have hrest : (field key value ++ []).lookup key = value.or (([] : List (String × Json)).lookup key) := lookup_field
  rwa [List.append_nil,List.lookup_nil,Option.or_none] at hrest

theorem lookup_field_alone_of_ne (h : key ≠ key') : (field key' value).lookup key = none := by
  have hrest : (field key' value ++ []).lookup key = ([] : List (String × Json)).lookup key := lookup_field_of_ne h
  rwa [List.append_nil] at hrest

/-- A number is written as the float it was read as. -/
theorem number_read {lib : JsonLib} (h : lib.KeepsFloats) (number : Option Json) :
    ((number.bind lib.asF64).map Json.float).bind lib.asF64 = number.bind lib.asF64 := by
  cases number with
  | none => rfl
  | some v =>
    cases hv : lib.asF64 v with
    | none => simp [hv]
    | some text => simp [hv,h v text hv]

theorem asU64_count (n : UInt64) : (count n).asU64 = some n := by
  have hlt := n.toNat_lt
  rw [count,Json.asU64,if_pos ⟨by omega,by omega⟩]
  simp

theorem strings_strArray (texts : List String) : strings (strArray texts) = some texts := by
  rw [strings,strArray,Json.asArray,Option.map_some,List.filterMap_map]
  exact congrArg some (List.filterMap_some ..)

end Lookups

section Turns
variable {ρ β γ : Type} [DecidableEq ρ]

theorem joinTurn_map (f : List β → List γ) (hf : ∀ xs ys, f (xs ++ ys) = f xs ++ f ys) (joined : List (ρ × List β)) (t : ρ × List β) :
    (joinTurn joined t).map (fun t => (t.1,f t.2)) = joinTurn (joined.map fun t => (t.1,f t.2)) (t.1,f t.2) := by
  rw [joinTurn,joinTurn,List.getLast?_map]
  cases joined.getLast? with
  | none => simp
  | some last =>
    simp only [Option.map_some]
    split
    · simp [hf]
    · simp

/-- Joining the turns and reading what they hold can be done in either order. -/
theorem joinTurns_map (f : List β → List γ) (hf : ∀ xs ys, f (xs ++ ys) = f xs ++ f ys) (turns : List (ρ × List β)) :
    (joinTurns turns).map (fun t => (t.1,f t.2)) = joinTurns (turns.map fun t => (t.1,f t.2)) := by
  have hfold : ∀ (turns joined : List (ρ × List β)), (turns.foldl joinTurn joined).map (fun t => (t.1,f t.2)) =
      (turns.map fun t => (t.1,f t.2)).foldl joinTurn (joined.map fun t => (t.1,f t.2)) := by
    intro turns
    induction turns with
    | nil => exact fun _ => rfl
    | cons t turns ih =>
      intro joined
      rw [List.foldl_cons,ih,List.map_cons,List.foldl_cons,joinTurn_map f hf]
  exact hfold turns []

theorem roleOf_turn (role : String) (blocks : List Json) : roleOf (turn role blocks) = role := rfl

theorem mergeTurn_map (joined : List (String × List Json)) (t : String × List Json) :
    mergeTurn (joined.map fun t => turn t.1 t.2) (turn t.1 t.2) = (joinTurn joined t).map fun t => turn t.1 t.2 := by
  rw [mergeTurn,joinTurn,List.getLast?_map]
  cases joined.getLast? with
  | none => simp
  | some last =>
    have hrole : textAt "role" (turn last.1 last.2) = some (roleOf (turn t.1 t.2)) ↔ last.1 = t.1 := by
      rw [roleOf_turn]
      exact Option.some_inj
    simp only [Option.map_some,hrole]
    split
    · rw [List.map_append,List.map_dropLast]
      rfl
    · simp

theorem mergeConsecutiveTurns_map (turns : List (String × List Json)) :
    mergeConsecutiveTurns (turns.map fun t => turn t.1 t.2) = (joinTurns turns).map fun t => turn t.1 t.2 := by
  have hfold : ∀ turns joined : List (String × List Json), (turns.map fun t => turn t.1 t.2).foldl mergeTurn (joined.map fun t => turn t.1 t.2) =
      (turns.foldl joinTurn joined).map fun t => turn t.1 t.2 := by
    intro turns
    induction turns with
    | nil => exact fun _ => rfl
    | cons t turns ih =>
      intro joined
      rw [List.map_cons,List.foldl_cons,mergeTurn_map,ih,List.foldl_cons]
  exact hfold turns []

end Turns

section AnthropicParts
variable {lib : JsonLib}

theorem anthropicBlock_textBlock (text : String) : anthropicBlock (textBlock text) = some (.text text) := rfl

theorem anthropicBlock_imageBlock (image : String × String) : anthropicBlock (imageBlock image) = some (.image image.1 image.2) := rfl

theorem anthropicBlock_toolUseBlock {id name : String} {input : Json} (h : Rereads lib input) :
    anthropicBlock (toolUseBlock lib ⟨id,name,input.toText⟩) = some (.toolUse id name input.print) := by
  obtain ⟨w,hw,hprint,_⟩ := h
  rw [toolUseBlock,hw,← hprint]
  rfl

section Parts
variable {part : Json}

/-- Cases of what a part is, as the parser and the reading tell it apart. -/
theorem anthropicPart_cases (h : anthropicBlock part ≠ some .toolResult) :
    (parseAnthropicPart part = [.text ((textAt "text" part).getD "")] ∧ anthropicBlock part = some (.text ((textAt "text" part).getD "")) ∧
      parseAnthropicToolCall part = none) ∨
    (∃ url mediaType data, parseAnthropicPart part = [.image url mediaType data] ∧ parseAnthropicToolCall part = none ∧
      anthropicBlock part = some (((anthropicImage url mediaType data).map fun i => Block.image i.1 i.2).getD .remoteImage)) ∨
    (∃ id name input, part.get "input" = some input ∧ parseAnthropicPart part = [] ∧
      parseAnthropicToolCall part = some ⟨id,name,input.toText⟩ ∧ anthropicBlock part = some (.toolUse id name input.print)) ∨
    parseAnthropicPart part = [] ∧ anthropicBlock part = none ∧ parseAnthropicToolCall part = none := by
  rw [anthropicBlock] at h ⊢
  rw [parseAnthropicPart,parseAnthropicToolCall]
  by_cases htext : (textAt "type" part).getD "text" = "text"
  · have hcall : ¬ textAt "type" part = some "tool_use" := by
      intro huse
      rw [huse] at htext
      exact absurd htext (by decide)
    simp only [if_pos htext,if_neg hcall]
    exact .inl ⟨by trivial,by trivial,by trivial⟩
  · simp only [if_neg htext] at h ⊢
    by_cases himage : (textAt "type" part).getD "text" = "image"
    · have hcall : ¬ textAt "type" part = some "tool_use" := by
        intro huse
        rw [huse] at himage
        exact absurd himage (by decide)
      simp only [if_pos himage,if_neg hcall]
      cases part.get "source" with
      | none => exact .inr (.inr (.inr ⟨by trivial,by trivial,by trivial⟩))
      | some source => exact .inr (.inl ⟨_,_,_,rfl,by trivial,rfl⟩)
    · simp only [if_neg himage] at h ⊢
      by_cases huse : (textAt "type" part).getD "text" = "tool_use"
      · have hcall : textAt "type" part = some "tool_use" := by
          cases hkind : textAt "type" part with
          | none => exact absurd (hkind ▸ huse) (by decide)
          | some kind => exact congrArg some (by simpa [hkind] using huse)
        have hresult : ¬ (textAt "type" part).getD "text" = "tool_result" := by
          rw [huse]
          decide
        simp only [if_pos huse,if_pos hcall,if_neg hresult]
        cases textAt "id" part with
        | none => exact .inr (.inr (.inr ⟨by trivial,by trivial,by trivial⟩))
        | some id =>
          cases textAt "name" part with
          | none => exact .inr (.inr (.inr ⟨by trivial,by trivial,by trivial⟩))
          | some name =>
            cases part.get "input" with
            | none => exact .inr (.inr (.inr ⟨by trivial,by trivial,by trivial⟩))
            | some input => exact .inr (.inr (.inl ⟨id,name,input,rfl,by trivial,by trivial,by trivial⟩))
      · have hcall : ¬ textAt "type" part = some "tool_use" := fun hkind => huse (by rw [hkind]; rfl)
        simp only [if_neg huse,if_neg hcall] at h ⊢
        by_cases hresult : (textAt "type" part).getD "text" = "tool_result"
        · rw [if_pos hresult] at h
          exact absurd rfl h
        · simp only [if_neg hresult]
          exact .inr (.inr (.inr ⟨by trivial,by trivial,by trivial⟩))

theorem texts_parseAnthropicPart (h : anthropicBlock part ≠ some .toolResult) :
    (parseAnthropicPart part).filterMap ContentPart.asText = (anthropicBlock part).toList.filterMap Block.asText := by
  obtain ⟨hpart,hblock,_⟩ | ⟨url,mediaType,data,hpart,_,hblock⟩ | ⟨id,name,input,_,hpart,_,hblock⟩ | ⟨hpart,hblock,_⟩ := anthropicPart_cases h
  · rw [hpart,hblock]
    rfl
  · rw [hpart,hblock]
    cases anthropicImage url mediaType data <;> rfl
  · rw [hpart,hblock]
    rfl
  · rw [hpart,hblock]
    rfl

theorem images_parseAnthropicPart (h : anthropicBlock part ≠ some .toolResult) :
    ((parseAnthropicPart part).filterMap ContentPart.anthropicImage).map (fun i => Block.image i.1 i.2) =
      (anthropicBlock part).toList.filter Block.isImage := by
  obtain ⟨hpart,hblock,_⟩ | ⟨url,mediaType,data,hpart,_,hblock⟩ | ⟨id,name,input,_,hpart,_,hblock⟩ | ⟨hpart,hblock,_⟩ := anthropicPart_cases h
  · rw [hpart,hblock]
    rfl
  · have hone : [ContentPart.image url mediaType data].filterMap ContentPart.anthropicImage = (anthropicImage url mediaType data).toList := by
      have himage : (ContentPart.image url mediaType data).anthropicImage = anthropicImage url mediaType data := rfl
      rw [List.filterMap_cons,himage]
      cases anthropicImage url mediaType data <;> rfl
    rw [hpart,hblock,hone]
    cases anthropicImage url mediaType data <;> rfl
  · rw [hpart,hblock]
    rfl
  · rw [hpart,hblock]
    rfl

theorem calls_parseAnthropicPart (h : anthropicBlock part ≠ some .toolResult) (hreads : ∀ input, part.get "input" = some input → Rereads lib input) :
    ((parseAnthropicToolCall part).toList.map (toolUseBlock lib)).filterMap anthropicBlock =
      (anthropicBlock part).toList.filter Block.isToolUse := by
  obtain ⟨_,hblock,hcall⟩ | ⟨url,mediaType,data,_,hcall,hblock⟩ | ⟨id,name,input,hinput,_,hcall,hblock⟩ | ⟨_,hblock,hcall⟩ := anthropicPart_cases h
  · rw [hcall,hblock]
    rfl
  · rw [hcall,hblock]
    cases anthropicImage url mediaType data <;> rfl
  · rw [hcall,hblock]
    simp only [Option.toList_some,List.map_cons,List.map_nil,List.filterMap_cons,anthropicBlock_toolUseBlock (hreads input hinput),List.filterMap_nil]
    rfl
  · rw [hcall,hblock]
    rfl

end Parts

/-- What the messages are read as and what is built for them is the same, but for the order. -/
theorem blocks_parseAnthropicContent {content : Option Json} {parts : List ContentPart} (hcontent : parseAnthropicContent content = .ok parts)
    (hplain : .toolResult ∉ anthropicBlocks content) (hreads : ∀ input ∈ partInputs content, Rereads lib input) :
    parts.filterMap ContentPart.asText = (anthropicBlocks content).filterMap Block.asText ∧
    (parts.filterMap ContentPart.anthropicImage).map (fun i => Block.image i.1 i.2) = (anthropicBlocks content).filter Block.isImage ∧
    ((parseAnthropicToolCalls content).map (toolUseBlock lib)).filterMap anthropicBlock = (anthropicBlocks content).filter Block.isToolUse := by
  match content with
  | none | some .null =>
    obtain rfl := Except.ok.inj hcontent
    exact ⟨rfl,rfl,rfl⟩
  | some (.string s) =>
    obtain rfl := Except.ok.inj hcontent
    exact ⟨rfl,rfl,rfl⟩
  | some (.bool _) | some (.int _) | some (.float _) | some (.object _) => exact nomatch hcontent
  | some (.array raw) =>
    obtain rfl := Except.ok.inj hcontent
    have hpart : ∀ part ∈ raw, anthropicBlock part ≠ some .toolResult :=
      fun part hpart hresult => hplain (List.mem_filterMap.mpr ⟨part,hpart,hresult⟩)
    have hinput : ∀ part ∈ raw, ∀ input, part.get "input" = some input → Rereads lib input :=
      fun part hpart input h => hreads input (List.mem_filterMap.mpr ⟨part,hpart,h⟩)
    simp only [anthropicBlocks,parseAnthropicToolCalls,List.filterMap_eq_flatMap_toList anthropicBlock raw,
      List.filterMap_eq_flatMap_toList parseAnthropicToolCall raw,List.filterMap_flatMap,List.filter_flatMap,List.map_flatMap]
    exact ⟨List.flatMap_congr fun part h => texts_parseAnthropicPart (hpart part h),
      List.flatMap_congr fun part h => images_parseAnthropicPart (hpart part h),
      List.flatMap_congr fun part h => calls_parseAnthropicPart (hpart part h) (hinput part h)⟩

theorem parseAnthropicMessage_eq_ok {msg : Json} {m : ChatMessage} (h : parseAnthropicMessage msg = .ok m) :
    ((roleOf msg = "user" ∧ m.role = .user) ∨ (roleOf msg = "assistant" ∧ m.role = .assistant)) ∧
      parseAnthropicContent (msg.get "content") = .ok m.content ∧ m.toolCalls = parseAnthropicToolCalls (msg.get "content") := by
  rw [parseAnthropicMessage] at h
  have hcases : ∀ role, (do
      let content ← parseAnthropicContent (msg.get "content")
      Except.ok (⟨role,content,none,parseAnthropicToolCalls (msg.get "content"),none⟩ : ChatMessage)) = .ok m →
      m.role = role ∧ parseAnthropicContent (msg.get "content") = .ok m.content ∧
        m.toolCalls = parseAnthropicToolCalls (msg.get "content") := by
    intro role hrole
    cases hcontent : parseAnthropicContent (msg.get "content") with
    | error e =>
      rw [hcontent] at hrole
      exact nomatch hrole
    | ok parts =>
      rw [hcontent] at hrole
      obtain rfl := Except.ok.inj hrole
      exact ⟨rfl,rfl,rfl⟩
  rw [roleOf]
  split at h
  · exact nomatch h
  · next hrole =>
    obtain ⟨hm,hrest⟩ := hcases .user h
    exact ⟨.inl ⟨by rw [hrole]; rfl,hm⟩,hrest⟩
  · next hrole =>
    obtain ⟨hm,hrest⟩ := hcases .assistant h
    exact ⟨.inr ⟨by rw [hrole]; rfl,hm⟩,hrest⟩
  · exact nomatch h

theorem blocks_messageContentBlocks {msg : Json} {m : ChatMessage} (h : parseAnthropicMessage msg = .ok m)
    (hplain : PlainTurn (anthropicTurn msg)) (hreads : ∀ input ∈ partInputs (msg.get "content"), Rereads lib input) :
    (messageContentBlocks lib m).filterMap anthropicBlock = Block.carried (anthropicBlocks (msg.get "content")) := by
  obtain ⟨hrole,hcontent,hcalls⟩ := parseAnthropicMessage_eq_ok h
  obtain ⟨htexts,himages,huses⟩ := blocks_parseAnthropicContent hcontent hplain.1 hreads
  rw [messageContentBlocks,Block.carried,ChatMessage.textContent,htexts,List.filterMap_append,List.filterMap_append]
  congr 1
  · congr 1
    · split <;> rfl
    · rw [← himages,List.filterMap_map]
      exact (List.filterMap_eq_map ..).symm ▸ rfl
  · obtain ⟨hmsg,hm⟩ | ⟨hmsg,hm⟩ := hrole
    · have hnone : (anthropicBlocks (msg.get "content")).filter Block.isToolUse = [] := by
        rw [List.filter_eq_nil_iff]
        intro b hb huse
        exact absurd (hmsg.symm.trans (hplain.2 b hb huse)) (by decide)
      rw [hm,hnone]
      rfl
    · rw [hm,if_pos rfl,hcalls]
      exact huses

end AnthropicParts

section AnthropicBody
variable {lib : JsonLib}

theorem joinedSystem_systemTurn (text : String) {turns : List ChatMessage} (hturns : ∀ m ∈ turns, m.role ≠ .system) :
    (joinedSystem (systemTurn text ++ turns)).getD "" = text := by
  have hnone : turns.filter (fun m => decide (m.role = .system)) = [] :=
    List.filter_eq_nil_iff.mpr fun m hm hrole => hturns m hm (of_decide_eq_true hrole)
  rw [joinedSystem,systemTexts,List.filter_append,hnone,List.append_nil,systemTurn]
  by_cases htext : text = ""
  · rw [if_pos htext,htext]
    rfl
  · have hcontent : (ChatMessage.ofText .system text).textContent = text := by
      show String.join [text] = text
      simp [String.join]
    have hone : [text].filter (fun t => decide (t ≠ "")) = [text] := by simp [htext]
    rw [if_neg htext,List.filter_cons_of_pos rfl,List.filter_nil,List.map_cons,List.map_nil,hcontent,hone,if_neg (List.cons_ne_nil _ _)]
    rfl

theorem filter_systemTurn (text : String) {turns : List ChatMessage} (hturns : ∀ m ∈ turns, m.role ≠ .system) :
    (systemTurn text ++ turns).filter (·.role ≠ .system) = turns := by
  have hnone : (systemTurn text).filter (fun m => decide (m.role ≠ .system)) = [] := by
    rw [systemTurn]
    split <;> rfl
  rw [List.filter_append,hnone,List.nil_append,List.filter_eq_self]
  exact fun m hm => decide_eq_true (hturns m hm)

theorem parseAnthropicRequest_eq_ok {body : Json} {req : ChatRequest} (h : parseAnthropicRequest lib body = .ok req) :
    ∃ obj model raw turns, (body.get "messages").bind Json.asArray = some raw ∧ raw.mapM parseAnthropicMessage = .ok turns ∧
      req = anthropicRequest lib body obj model (systemTurn (((body.get "system").map anthropicSystemText).getD "") ++ turns) := by
  obtain ⟨obj,-,h⟩ := bind_eq_ok.mp h
  obtain ⟨model,-,h⟩ := bind_eq_ok.mp h
  obtain ⟨raw,hraw,h⟩ := bind_eq_ok.mp h
  obtain ⟨turns,hturns,h⟩ := bind_eq_ok.mp h
  split at h
  · cases h
  · exact ⟨obj,model,raw,turns,elim_eq_ok.mp hraw,hturns,(Except.ok.inj h).symm⟩

/-- The turns that are built are the turns that were sent, as they are carried. -/
theorem mapM_anthropicMessage {raw : List Json} {turns : List ChatMessage} (hparse : raw.mapM parseAnthropicMessage = .ok turns)
    (hplain : ∀ msg ∈ raw, PlainTurn (anthropicTurn msg))
    (hreads : ∀ msg ∈ raw, ∀ input ∈ partInputs (msg.get "content"), Rereads lib input) :
    (∀ m ∈ turns, m.role ≠ .system) ∧ ∃ built : List (String × List Json), turns.mapM (anthropicMessage lib) = .ok (built.map fun t => turn t.1 t.2) ∧
      built.length = raw.length ∧
      built.map (fun t => (t.1,t.2.filterMap anthropicBlock)) = raw.map fun msg => (roleOf msg,Block.carried (anthropicBlocks (msg.get "content"))) := by
  replace hparse := forall₂_of_mapM hparse
  induction hparse with
  | nil => exact ⟨fun _ hm => absurd hm List.not_mem_nil,[],rfl,rfl,rfl⟩
  | cons hm hrest ih =>
    rename_i msg m raw rest
    obtain ⟨hroles,built,hbuilt,hlength,hblocks⟩ := ih (fun a ha => hplain a (List.mem_cons_of_mem _ ha))
      (fun a ha => hreads a (List.mem_cons_of_mem _ ha))
    have hone := blocks_messageContentBlocks hm (hplain msg List.mem_cons_self) (hreads msg List.mem_cons_self)
    obtain ⟨hrole,_,_⟩ := parseAnthropicMessage_eq_ok hm
    have hmsg : anthropicMessage lib m = .ok (turn (roleOf msg) (messageContentBlocks lib m)) := by
      rw [anthropicMessage]
      obtain ⟨hr,hr'⟩ | ⟨hr,hr'⟩ := hrole
      · rw [hr,hr']
      · rw [hr,hr']
    refine ⟨?_,(roleOf msg,messageContentBlocks lib m) :: built,?_,?_,?_⟩
    · intro m' hm'
      obtain rfl | hm' := List.mem_cons.mp hm'
      · obtain ⟨_,hr⟩ | ⟨_,hr⟩ := hrole <;> rw [hr] <;> exact nofun
      · exact hroles m' hm'
    · rw [List.mapM_cons,hmsg,hbuilt]
      rfl
    · rw [List.length_cons,List.length_cons,hlength]
    · rw [List.map_cons,List.map_cons,hblocks,hone]

section Fields
variable (req : ChatRequest) (providerModel : String) (messages : List Json)

theorem get_anthropicBody :
    (anthropicBody req providerModel messages).get "system" = (joinedSystem req.messages).map .string ∧
    (anthropicBody req providerModel messages).get "messages" = some (.array (mergeConsecutiveTurns messages)) ∧
    (anthropicBody req providerModel messages).get "max_tokens" = some (count (req.maxTokens.getD defaultMaxTokens)) ∧
    (anthropicBody req providerModel messages).get "tools" = (applyAnthropicResponseFormat (anthropicTools req) req.responseFormat).1.map .array ∧
    (anthropicBody req providerModel messages).get "tool_choice" = (applyAnthropicResponseFormat (anthropicTools req) req.responseFormat).2 ∧
    (anthropicBody req providerModel messages).get "temperature" = req.temperature.map .float ∧
    (anthropicBody req providerModel messages).get "top_p" = req.topP.map .float ∧
    (anthropicBody req providerModel messages).get "stop_sequences" = req.stop.map strArray := by
  simp [anthropicBody,get_object,List.append_assoc,lookup_field,lookup_field_of_ne,List.lookup_cons,lookup_field_alone_of_ne]

end Fields

theorem toolRead_anthropicTool (t : ToolSpec) :
    toolRead (some ·.print) "input_schema" (anthropicTool t) = some (t.name,t.description,some (t.parameters.getD (typed "object" [])).print) := by
  have hname : textAt "name" (anthropicTool t) = some t.name := rfl
  have hdescription : textAt "description" (anthropicTool t) = t.description := by
    cases hd : t.description <;> simp [textAt,anthropicTool,get_object,hd,field,List.lookup_cons,Json.asStr]
  have hschema : (anthropicTool t).get "input_schema" = some (t.parameters.getD (typed "object" [])) := by
    cases hd : t.description <;> simp [anthropicTool,get_object,hd,field,List.lookup_cons]
  rw [toolRead,hname,hdescription,hschema]
  rfl

theorem anthropicChoice_anthropicToolChoice {c : ToolChoice} (h : c ≠ .none) : (anthropicToolChoice c).bind anthropicChoice = some c := by
  cases c with
  | none => exact absurd rfl h
  | auto => rfl
  | any => rfl
  | tool name => rfl

/-- The tools of a request, as they are read and as they are declared to the provider. -/
theorem toolRead_toolSpec (t : Json) :
    ((toolSpec "input_schema" t).map anthropicTool).bind (toolRead (some ·.print) "input_schema") =
      (toolRead (some ·.print) "input_schema" t).map fun t => (t.1,t.2.1,some (t.2.2.getD (typed "object" []).print)) := by
  cases hname : textAt "name" t with
  | none => simp [toolSpec,toolRead,hname]
  | some name =>
    have hspec : toolSpec "input_schema" t = some ⟨name,textAt "description" t,t.get "input_schema"⟩ := by rw [toolSpec,hname]; rfl
    have hread : toolRead (some ·.print) "input_schema" t = some (name,textAt "description" t,(t.get "input_schema").bind (some ·.print)) := by
      rw [toolRead,hname]
      rfl
    rw [hspec,hread,Option.map_some,Option.bind_some,toolRead_anthropicTool]
    cases t.get "input_schema" <;> rfl

/-- The tools and the choice a request for Anthropic declares, read back. -/
theorem anthropicTools_read {req : ChatRequest} (hchoice : req.toolChoice ≠ some .none) :
    ((((anthropicTools req).1.map Json.array).bind Json.asArray).getD []).filterMap (toolRead (some ·.print) "input_schema") =
      req.tools.filterMap (fun t => toolRead (some ·.print) "input_schema" (anthropicTool t)) ∧
    (anthropicTools req).2.bind anthropicChoice = if req.tools = [] then none else req.toolChoice := by
  rw [anthropicTools]
  cases htools : req.tools with
  | nil => exact ⟨rfl,rfl⟩
  | cons t tools =>
    simp only [List.isEmpty_cons,Bool.false_eq_true,if_false,if_neg hchoice]
    refine ⟨?_,?_⟩
    · show (List.map anthropicTool (t :: tools)).filterMap _ = _
      rw [List.filterMap_map]
      rfl
    · rw [if_neg (List.cons_ne_nil _ _)]
      cases hc : req.toolChoice with
      | none => rfl
      | some c => exact anthropicChoice_anthropicToolChoice fun h => hchoice (hc.trans (congrArg some h))

theorem tools_read (tools : List Json) :
    (tools.filterMap (toolSpec "input_schema")).filterMap (fun t => toolRead (some ·.print) "input_schema" (anthropicTool t)) =
      (tools.filterMap (toolRead (some ·.print) "input_schema")).map fun t => (t.1,t.2.1,some (t.2.2.getD (typed "object" []).print)) := by
  rw [List.filterMap_filterMap,List.map_filterMap]
  apply List.filterMap_congr
  intro t _
  rw [← toolRead_toolSpec,Option.bind_map]
  rfl

theorem toolSpec_eq_nil_iff (tools : List Json) :
    tools.filterMap (toolSpec "input_schema") = [] ↔ tools.filterMap (toolRead (some ·.print) "input_schema") = [] := by
  rw [List.filterMap_eq_nil_iff,List.filterMap_eq_nil_iff]
  simp only [toolSpec,toolRead,Option.map_eq_none_iff]

/-- Any choice but none is read as what the parser makes of it. -/
theorem choice_read {choice : Option Json} (h : choice.bind anthropicChoice ≠ some .none) :
    choice.bind anthropicChoice = choice.bind parseAnthropicToolChoice := by
  cases choice with
  | none => rfl
  | some v =>
    show anthropicChoice v = parseAnthropicToolChoice v
    rw [Option.bind_some,anthropicChoice] at h
    rw [anthropicChoice]
    split at h
    · exact absurd rfl h
    · next hnot => rw [if_neg hnot]

/-- An Anthropic body whose turns answer no call is carried whole. -/
theorem anthropic_carried {body : Json} {req : ChatRequest} (hparse : parseAnthropicRequest lib body = .ok req) (providerModel : String)
    (h : AnthropicPlain lib body) (hfloat : lib.KeepsFloats) :
    ∃ out, buildAnthropicRequest lib req providerModel = .ok out ∧
      anthropicConversation lib out.body = carriedAnthropic (anthropicConversation lib body) := by
  obtain ⟨obj,model,raw,turns,hraw,hturns,rfl⟩ := parseAnthropicRequest_eq_ok hparse
  have hmessages : (anthropicConversation lib body).turns = raw.map anthropicTurn := by
    show (((body.get "messages").bind Json.asArray).getD []).map anthropicTurn = _
    rw [hraw]
    rfl
  have hplain := h.turns
  have hsome := h.some_turn
  have hreads := h.reads
  have hchoice := h.choice
  rw [hmessages] at hplain hsome
  rw [hraw] at hreads
  obtain ⟨hroles,built,hbuilt,hlength,hblocks⟩ := mapM_anthropicMessage hturns
    (fun msg hmsg => hplain _ (List.mem_map_of_mem hmsg)) hreads
  have hbuiltNe : built ≠ [] := by
    rintro rfl
    exact hsome (by rw [List.length_eq_zero_iff.mp hlength.symm]; rfl)
  have hsame := choice_read hchoice
  generalize hsystem : systemTurn (((body.get "system").map anthropicSystemText).getD "") ++ turns = all
  have hall : all.filter (·.role ≠ .system) = turns := hsystem ▸ filter_systemTurn _ hroles
  have hjoined : (joinedSystem all).getD "" = ((body.get "system").map anthropicSystemText).getD "" :=
    hsystem ▸ joinedSystem_systemTurn _ hroles
  refine ⟨⟨"POST","/v1/messages",[("content-type","application/json"),("anthropic-version","2023-06-01")],
    anthropicBody (anthropicRequest lib body obj model all) providerModel (built.map fun t => turn t.1 t.2)⟩,?_,?_⟩
  · rw [buildAnthropicRequest]
    have hbuild : ((anthropicRequest lib body obj model all).messages.filter (·.role ≠ .system)).mapM (anthropicMessage lib) =
        .ok (built.map fun t => turn t.1 t.2) := hall.symm ▸ hbuilt
    simp only [hbuild,bind,Except.bind,List.isEmpty_map,List.isEmpty_iff,if_neg hbuiltNe]
  · obtain ⟨hget,hgetMessages,hmax,htools,hgetChoice,htemperature,htopP,hstop⟩ :=
      get_anthropicBody (anthropicRequest lib body obj model all) providerModel (built.map fun t => turn t.1 t.2)
    have hformat : applyAnthropicResponseFormat (anthropicTools (anthropicRequest lib body obj model all))
        (anthropicRequest lib body obj model all).responseFormat = anthropicTools (anthropicRequest lib body obj model all) := rfl
    have hnoNone : (anthropicRequest lib body obj model all).toolChoice ≠ some .none := by
      show (body.get "tool_choice").bind parseAnthropicToolChoice ≠ some .none
      exact hsame ▸ hchoice
    obtain ⟨htoolsRead,hchoiceRead⟩ := anthropicTools_read hnoNone
    rw [hformat] at htools hgetChoice
    have hreqTools : (anthropicRequest lib body obj model all).tools =
        (((body.get "tools").bind Json.asArray).getD []).filterMap (toolSpec "input_schema") := by
      show (((body.get "tools").bind Json.asArray).map _).getD [] = _
      cases (body.get "tools").bind Json.asArray <;> rfl
    ext1
    case system =>
      show (((anthropicBody _ _ _).get "system").map anthropicSystemText).getD "" = ((body.get "system").map anthropicSystemText).getD ""
      rw [hget,← hjoined]
      show (((joinedSystem all).map Json.string).map anthropicSystemText).getD "" = (joinedSystem all).getD ""
      cases joinedSystem all <;> rfl
    case turns =>
      show ((((anthropicBody _ _ _).get "messages").bind Json.asArray).getD []).map anthropicTurn = joinTurns (_ : List (String × List Block))
      rw [hgetMessages,mergeConsecutiveTurns_map]
      show ((joinTurns built).map fun t => turn t.1 t.2).map anthropicTurn = _
      rw [List.map_map]
      have hread := joinTurns_map (ρ := String) (fun blocks : List Json => blocks.filterMap anthropicBlock) (fun xs ys => List.filterMap_append) built
      exact hread.trans (by rw [hblocks,hmessages,List.map_map]; rfl)
    case tools =>
      show ((((anthropicBody _ _ _).get "tools").bind Json.asArray).getD []).filterMap _ = (_ : List Tool).map _
      rw [htools,htoolsRead,hreqTools]
      exact tools_read _
    case toolChoice =>
      show ((anthropicBody _ _ _).get "tool_choice").bind anthropicChoice = if (anthropicConversation lib body).tools = [] then none else _
      rw [hgetChoice,hchoiceRead,hreqTools]
      show (if _ then _ else (body.get "tool_choice").bind parseAnthropicToolChoice) = if _ then _ else (body.get "tool_choice").bind anthropicChoice
      rw [hsame]
      exact if_congr (toolSpec_eq_nil_iff _) rfl rfl
    case temperature =>
      show ((anthropicBody _ _ _).get "temperature").bind lib.asF64 = (body.get "temperature").bind lib.asF64
      rw [htemperature]
      exact number_read hfloat _
    case topP =>
      show ((anthropicBody _ _ _).get "top_p").bind lib.asF64 = (body.get "top_p").bind lib.asF64
      rw [htopP]
      exact number_read hfloat _
    case maxTokens =>
      show ((anthropicBody _ _ _).get "max_tokens").bind Json.asU64 = some (((body.get "max_tokens").bind Json.asU64).getD defaultMaxTokens)
      rw [hmax,Option.bind_some,asU64_count]
      rfl
    case stop =>
      show ((anthropicBody _ _ _).get "stop_sequences").bind strings = (body.get "stop_sequences").bind strings
      rw [hstop]
      show (((body.get "stop_sequences").bind strings).map strArray).bind strings = _
      cases (body.get "stop_sequences").bind strings with
      | none => rfl
      | some texts => exact strings_strArray texts

end AnthropicBody

end Dwara.Ai
