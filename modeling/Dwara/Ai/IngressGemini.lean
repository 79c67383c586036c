import Dwara.Ai.IngressAnthropic

/-! Gemini requests through the canonical request and back. -/

namespace Dwara.Ai
open Dwara.Lib

section GeminiParts
variable {lib : JsonLib}

theorem geminiBlocks_textPart (text : String) : geminiBlocks (textPart text) = [.text text] := rfl

theorem geminiBlocks_inlinePart (image : String × String) : geminiBlocks (inlinePart image) = [.image image.1 image.2] := rfl

theorem geminiBlocks_functionCallPart (tc : ToolCall) :
    geminiBlocks (functionCallPart lib tc) = [.toolUse "" tc.name (argumentsObject lib tc).print] := rfl

theorem texts_parseGeminiPart (part : Json) :
    (parseGeminiPart part).filterMap ContentPart.asText = (geminiBlocks part).filterMap Block.asText := by
  have hcall : (geminiCall part).filterMap Block.asText = [] := by
    rw [geminiCall]
    cases part.get "functionCall" <;> rfl
  have hresult : (geminiResult part).filterMap Block.asText = [] := by
    rw [geminiResult]
    cases part.get "functionResponse" <;> rfl
  rw [geminiBlocks,List.filterMap_append,List.filterMap_append,hcall,hresult,List.append_nil,List.append_nil,parseGeminiPart,geminiData]
  cases textAt "text" part with
  | some text => rfl
  | none =>
    cases getEither "inlineData" "inline_data" part with
    | some inline =>
      simp only [Option.map_some,Option.some_or,Option.toList_some,inlineBlock]
      cases textAt "data" inline <;> rfl
    | none =>
      cases getEither "fileData" "file_data" part with
      | some file =>
        simp only [Option.map_some,Option.map_none,Option.none_or,Option.toList_some,fileBlock]
        cases (textAtEither "fileUri" "file_uri" file).bind splitDataUri <;> rfl
      | none => rfl

theorem images_parseGeminiPart (part : Json) :
    ((parseGeminiPart part).filterMap ContentPart.geminiImage).map (fun i => Block.image i.1 i.2) = (geminiBlocks part).filter Block.isImage := by
  have hcall : (geminiCall part).filter Block.isImage = [] := by
    rw [geminiCall]
    cases part.get "functionCall" <;> rfl
  have hresult : (geminiResult part).filter Block.isImage = [] := by
    rw [geminiResult]
    cases part.get "functionResponse" <;> rfl
  rw [geminiBlocks,List.filter_append,List.filter_append,hcall,hresult,List.append_nil,List.append_nil,parseGeminiPart,geminiData]
  cases textAt "text" part with
  | some text => rfl
  | none =>
    cases getEither "inlineData" "inline_data" part with
    | some inline =>
      simp only [Option.map_some,Option.some_or,Option.toList_some,inlineBlock]
      cases textAt "data" inline <;> rfl
    | none =>
      cases getEither "fileData" "file_data" part with
      | some file =>
        have himage : ∀ mediaType, (ContentPart.image (textAtEither "fileUri" "file_uri" file) mediaType none).geminiImage =
            (textAtEither "fileUri" "file_uri" file).bind splitDataUri := fun _ => rfl
        simp only [Option.map_some,Option.map_none,Option.none_or,Option.toList_some,fileBlock,List.filterMap_cons,himage]
        cases (textAtEither "fileUri" "file_uri" file).bind splitDataUri <;> rfl
      | none => rfl

theorem calls_parseGeminiPart (part : Json) (place : ℕ)
    (hreads : ∀ fc, part.get "functionCall" = some fc → Rereads lib ((fc.get "args").getD .null)) :
    ((parseGeminiFunctionCall place part).toList.map (functionCallPart lib)).flatMap geminiBlocks = (geminiBlocks part).filter Block.isToolUse := by
  have hdata : (geminiData part).filter Block.isToolUse = [] := by
    rw [geminiData]
    cases textAt "text" part with
    | some text => rfl
    | none =>
      cases getEither "inlineData" "inline_data" part with
      | some inline =>
        simp only [Option.map_some,Option.some_or,Option.toList_some,inlineBlock]
        cases textAt "data" inline <;> rfl
      | none =>
        cases getEither "fileData" "file_data" part with
        | some file =>
          simp only [Option.map_some,Option.map_none,Option.none_or,Option.toList_some,fileBlock]
          cases (textAtEither "fileUri" "file_uri" file).bind splitDataUri <;> rfl
        | none => rfl
  have hresult : (geminiResult part).filter Block.isToolUse = [] := by
    rw [geminiResult]
    cases part.get "functionResponse" <;> rfl
  rw [geminiBlocks,List.filter_append,List.filter_append,hdata,hresult,List.nil_append,List.append_nil,parseGeminiFunctionCall,geminiCall]
  cases hfc : part.get "functionCall" with
  | none => rfl
  | some fc =>
    obtain ⟨w,hw,hprint,hobject⟩ := hreads fc hfc
    have hargs : ∀ id name : String, (argumentsObject lib ⟨id,name,((fc.get "args").getD .null).toText⟩).print =
        (Json.object (((fc.get "args").bind Json.asObject).getD [])).print := by
      intro id name
      rw [argumentsObject,hw,Option.bind_some]
      have hin : (fc.get "args").bind Json.asObject = ((fc.get "args").getD .null).asObject := by cases fc.get "args" <;> rfl
      rw [hin]
      generalize (fc.get "args").getD .null = v at hprint hobject
      cases hv : v.asObject with
      | none =>
        rw [hv] at hobject
        rw [Option.isSome_eq_false_iff.mp hobject |> Option.isNone_iff_eq_none.mp]
      | some fields =>
        rw [hv] at hobject
        obtain ⟨fields',hw'⟩ := Option.isSome_iff_exists.mp hobject
        have hobj : ∀ {u : Json} {fields}, u.asObject = some fields → u = .object fields := by
          intro u fields hu
          cases u with
          | object fields' => exact congrArg Json.object (Option.some.inj hu)
          | _ => exact nomatch hu
        rw [hw',Option.getD_some,Option.getD_some,← hobj hw',← hobj hv,hprint]
    simp only [Option.map_some,Option.toList_some,List.map_cons,List.map_nil,List.flatMap_cons,List.flatMap_nil,geminiBlocks_functionCallPart,hargs]
    rfl

end GeminiParts

section GeminiBody
variable {lib : JsonLib}

theorem parseGeminiContent_eq_ok {msg : Json} {m : ChatMessage} (h : parseGeminiContent msg = .ok m) (hplain : (textAt "role" msg).getD "user" ≠ "function") :
    (((textAt "role" msg).getD "user" = "user" ∧ m.role = .user) ∨ ((textAt "role" msg).getD "user" = "model" ∧ m.role = .assistant)) ∧
      m.content = parseGeminiParts (msg.get "parts") ∧ m.toolCalls = parseGeminiFunctionCalls (msg.get "parts") := by
  rw [parseGeminiContent] at h
  split at h
  · next hrole =>
    obtain rfl := Except.ok.inj h
    exact ⟨.inl ⟨hrole,rfl⟩,rfl,rfl⟩
  · next hrole =>
    obtain rfl := Except.ok.inj h
    exact ⟨.inr ⟨hrole,rfl⟩,rfl,rfl⟩
  · next hrole => exact absurd hrole hplain
  · exact nomatch h

theorem texts_parseGeminiParts (parts : Option Json) :
    (parseGeminiParts parts).filterMap ContentPart.asText = ((partsOf parts).flatMap geminiBlocks).filterMap Block.asText := by
  rw [parseGeminiParts,List.filterMap_flatMap,List.filterMap_flatMap]
  exact List.flatMap_congr fun part _ => texts_parseGeminiPart part

theorem images_parseGeminiParts (parts : Option Json) :
    ((parseGeminiParts parts).filterMap ContentPart.geminiImage).map (fun i => Block.image i.1 i.2) =
      ((partsOf parts).flatMap geminiBlocks).filter Block.isImage := by
  rw [parseGeminiParts,List.filterMap_flatMap,List.map_flatMap,List.filter_flatMap]
  exact List.flatMap_congr fun part _ => images_parseGeminiPart part

theorem calls_parseGeminiFunctionCalls {parts : Option Json} (hreads : ∀ args ∈ callArgs parts, Rereads lib args) :
    ((parseGeminiFunctionCalls parts).map (functionCallPart lib)).flatMap geminiBlocks =
      ((partsOf parts).flatMap geminiBlocks).filter Block.isToolUse := by
  rw [callArgs] at hreads
  rw [parseGeminiFunctionCalls,List.filter_flatMap]
  generalize partsOf parts = raw at hreads ⊢
  have hfrom : ∀ place, ((((raw.zipIdx place).filterMap fun p => parseGeminiFunctionCall p.2 p.1).map (functionCallPart lib)).flatMap geminiBlocks) =
      raw.flatMap fun part => (geminiBlocks part).filter Block.isToolUse := by
    induction raw with
    | nil => exact fun _ => rfl
    | cons part raw ih =>
      intro place
      have hpart : ∀ fc, part.get "functionCall" = some fc → Rereads lib ((fc.get "args").getD .null) :=
        fun fc hfc => hreads _ (List.mem_filterMap.mpr ⟨part,List.mem_cons_self,by rw [hfc]; rfl⟩)
      have hone := calls_parseGeminiPart part place hpart
      have hrest := ih (fun args hargs => hreads args (by
        obtain ⟨p,hp,hargs⟩ := List.mem_filterMap.mp hargs
        exact List.mem_filterMap.mpr ⟨p,List.mem_cons_of_mem _ hp,hargs⟩)) (place + 1)
      rw [List.zipIdx_cons,List.filterMap_eq_flatMap_toList,List.flatMap_cons,List.map_append,List.flatMap_append,hone,List.flatMap_cons,
        ← List.filterMap_eq_flatMap_toList,hrest]
  exact hfrom 0

theorem blocks_geminiContent {msg : Json} {m : ChatMessage} (h : parseGeminiContent msg = .ok m) (hplain : PlainContent (geminiTurn msg))
    (hreads : ∀ args ∈ callArgs (msg.get "parts"), Rereads lib args) (history : List ChatMessage) :
    m.role ≠ .system ∧ geminiTurn (geminiContent lib history m) = ((geminiTurn msg).1,Block.carried (geminiTurn msg).2) := by
  obtain ⟨hrole,hcontent,hcalls⟩ := parseGeminiContent_eq_ok h hplain.1
  have htexts := texts_parseGeminiParts (msg.get "parts")
  have himages := images_parseGeminiParts (msg.get "parts")
  have huses := calls_parseGeminiFunctionCalls hreads
  have hturn : ∀ role parts, geminiTurn (content role parts) = (role,parts.flatMap geminiBlocks) := fun _ _ => rfl
  have hfront : (textParts m).flatMap geminiBlocks =
      if String.join ((geminiTurn msg).2.filterMap Block.asText) = "" then [] else [.text (String.join ((geminiTurn msg).2.filterMap Block.asText))] := by
    have htext : m.textContent = String.join ((geminiTurn msg).2.filterMap Block.asText) := by
      rw [ChatMessage.textContent,hcontent,htexts]
      rfl
    rw [textParts,htext]
    split <;> rfl
  obtain ⟨hmsg,hm⟩ | ⟨hmsg,hm⟩ := hrole
  · have hnone : (geminiTurn msg).2.filter Block.isToolUse = [] := by
      rw [List.filter_eq_nil_iff]
      intro b hb huse
      exact absurd (hmsg.symm.trans (hplain.2.2.1 b hb huse)) (by decide)
    have hinline : ((m.content.filterMap ContentPart.geminiImage).map inlinePart).flatMap geminiBlocks = (geminiTurn msg).2.filter Block.isImage := by
      rw [hcontent,List.flatMap_map]
      refine Eq.trans ?_ himages
      rw [List.map_eq_flatMap]
      rfl
    have huser : geminiContent lib history m = content "user" (userParts m) := by
      rw [geminiContent,hm]
    refine ⟨by rw [hm]; decide,?_⟩
    rw [huser,hturn,userParts,List.flatMap_append,hfront,hinline,Block.carried,hnone,List.append_nil]
    exact Prod.ext hmsg.symm rfl
  · have hnone : (geminiTurn msg).2.filter Block.isImage = [] := by
      rw [List.filter_eq_nil_iff]
      intro b hb himage
      exact hplain.2.2.2 b hb himage hmsg
    have hmodel : geminiContent lib history m = content "model" (modelParts lib m) := by
      rw [geminiContent,hm]
    refine ⟨by rw [hm]; decide,?_⟩
    rw [hmodel,hturn,modelParts,List.flatMap_append,hfront,hcalls,huses,Block.carried,hnone,List.append_nil]
    exact Prod.ext hmsg.symm rfl

theorem mapM_parseGeminiContent {raw : List Json} {turns : List ChatMessage} (hparse : raw.mapM parseGeminiContent = .ok turns)
    (hplain : ∀ msg ∈ raw, PlainContent (geminiTurn msg))
    (hreads : ∀ msg ∈ raw, ∀ args ∈ callArgs (msg.get "parts"), Rereads lib args) (history : List ChatMessage) :
    (∀ m ∈ turns, m.role ≠ .system) ∧ turns.length = raw.length ∧
      (turns.map (geminiContent lib history)).map geminiTurn = raw.map fun msg => ((geminiTurn msg).1,Block.carried (geminiTurn msg).2) := by
  replace hparse := forall₂_of_mapM hparse
  induction hparse with
  | nil => exact ⟨fun _ hm => absurd hm List.not_mem_nil,rfl,rfl⟩
  | cons hm hrest ih =>
    rename_i msg m raw rest
    obtain ⟨hroles,hlength,hblocks⟩ := ih (fun a ha => hplain a (List.mem_cons_of_mem _ ha))
      (fun a ha => hreads a (List.mem_cons_of_mem _ ha))
    obtain ⟨hrole,hone⟩ := blocks_geminiContent hm (hplain msg List.mem_cons_self) (hreads msg List.mem_cons_self) history
    refine ⟨?_,by rw [List.length_cons,List.length_cons,hlength],?_⟩
    · intro m' hm'
      obtain rfl | hm' := List.mem_cons.mp hm'
      · exact hrole
      · exact hroles m' hm'
    · rw [List.map_cons,List.map_cons,List.map_cons,hblocks,hone]

theorem parseGeminiRequest_eq_ok {body : Json} {req : ChatRequest} (h : parseGeminiRequest lib body = .ok req) :
    ∃ obj raw turns, (body.get "contents").bind Json.asArray = some raw ∧ raw.mapM parseGeminiContent = .ok turns ∧
      req = geminiRequest lib body obj (systemTurn (((body.get "systemInstruction").map geminiSystemText).getD "") ++ turns) := by
  obtain ⟨obj,-,h⟩ := bind_eq_ok.mp h
  obtain ⟨raw,hraw,h⟩ := bind_eq_ok.mp h
  obtain ⟨turns,hturns,h⟩ := bind_eq_ok.mp h
  split at h
  · cases h
  · exact ⟨obj,raw,turns,elim_eq_ok.mp hraw,hturns,(Except.ok.inj h).symm⟩

section Fields
variable (req : ChatRequest) (contents : List Json)

theorem get_geminiBody :
    (geminiBody req contents).get "systemInstruction" = ((joinedSystem req.messages).map fun text => Json.object [("parts",.array [textPart text])]) ∧
    (geminiBody req contents).get "contents" = some (.array contents) ∧
    (geminiBody req contents).get "tools" =
      (if req.tools.isEmpty then none else some (.array [.object [("functionDeclarations",.array (req.tools.map declaration))]])) ∧
    (geminiBody req contents).get "toolConfig" = (if req.tools.isEmpty then none else req.toolChoice.map geminiToolConfig) ∧
    (geminiBody req contents).get "generationConfig" = unlessEmpty (generation req) := by
  simp [geminiBody,get_object,List.append_assoc,lookup_field,lookup_field_of_ne,List.lookup_cons,lookup_field_alone,lookup_field_alone_of_ne]

theorem get_generation :
    (unlessEmpty (generation req)).bind (·.get "temperature") = req.temperature.map .float ∧
    (unlessEmpty (generation req)).bind (·.get "topP") = req.topP.map .float ∧
    (unlessEmpty (generation req)).bind (·.get "maxOutputTokens") = req.maxTokens.map count ∧
    (unlessEmpty (generation req)).bind (·.get "stopSequences") = req.stop.map strArray := by
  have hget : ∀ (fields : List (String × Json)) (key : String), (unlessEmpty fields).bind (·.get key) = fields.lookup key := by
    intro fields key
    cases fields <;> rfl
  have hformat : ∀ key, key ≠ "responseMimeType" → key ≠ "responseSchema" → (geminiResponseFormat req.responseFormat).lookup key = none := by
    intro key hmime hschema
    cases req.responseFormat with
    | none => rfl
    | some format => cases format <;> simp [geminiResponseFormat,List.lookup_cons,beq_false_of_ne hmime,beq_false_of_ne hschema]
  simp only [hget,generation,List.append_assoc]
  simp [lookup_field,lookup_field_of_ne,hformat]

end Fields

theorem parseGeminiMode_cases (mode : String) : parseGeminiMode mode = none ∨ parseGeminiMode mode = some .auto ∨
    parseGeminiMode mode = some .none ∨ parseGeminiMode mode = some .any := by
  unfold parseGeminiMode
  split
  · exact .inr (.inl rfl)
  · exact .inr (.inr (.inl rfl))
  · exact .inr (.inr (.inr rfl))
  · exact .inl rfl

theorem geminiParameters_idem {p q : Json} (h : geminiParameters p = some q) : geminiParameters q = some q := by
  rw [geminiParameters] at h
  obtain ⟨fields,_,rfl⟩ := Option.map_eq_some_iff.mp h
  show some (Json.object ((fields.filter (·.1 ≠ "$schema")).filter (·.1 ≠ "$schema"))) = _
  rw [List.filter_filter]
  simp only [Bool.and_self]

theorem toolRead_declaration (t : ToolSpec) :
    toolRead (fun schema => (geminiParameters schema).map (·.print)) "parameters" (declaration t) =
      some (t.name,t.description,(t.parameters.bind geminiParameters).map (·.print)) := by
  have hname : textAt "name" (declaration t) = some t.name := rfl
  have hdescription : textAt "description" (declaration t) = t.description := by
    cases hd : t.description <;> cases hp : t.parameters.bind geminiParameters <;>
      simp [textAt,declaration,get_object,hd,hp,field,List.lookup_cons,Json.asStr]
  have hparameters : (declaration t).get "parameters" = t.parameters.bind geminiParameters := by
    cases hd : t.description <;> cases hp : t.parameters.bind geminiParameters <;>
      simp [declaration,get_object,hd,hp,field,List.lookup_cons]
  have hidem : (t.parameters.bind geminiParameters).bind (fun schema => (geminiParameters schema).map (·.print)) =
      (t.parameters.bind geminiParameters).map (·.print) := by
    cases hp : t.parameters.bind geminiParameters with
    | none => rfl
    | some q =>
      obtain ⟨p,_,hq⟩ := Option.bind_eq_some_iff.mp hp
      rw [Option.bind_some,geminiParameters_idem hq]
  rw [toolRead,hname,hdescription,hparameters,hidem]
  rfl

theorem geminiTools_declarations (tool : Json) :
    ((declarations tool).map declaration).filterMap (toolRead (fun schema => (geminiParameters schema).map (·.print)) "parameters") =
      geminiTools tool := by
  have hspec : ∀ t : Json, (toolSpec "parameters" t).bind (fun t =>
      toolRead (fun schema => (geminiParameters schema).map (·.print)) "parameters" (declaration t)) =
      toolRead (fun schema => (geminiParameters schema).map (·.print)) "parameters" t := by
    intro t
    simp only [toolRead_declaration]
    rw [toolSpec,toolRead]
    cases textAt "name" t with
    | none => rfl
    | some name =>
      cases t.get "parameters" <;> rfl
  rw [declarations,geminiTools]
  cases (tool.get "functionDeclarations").bind Json.asArray with
  | none => rfl
  | some raw =>
    show (((raw.filterMap (toolSpec "parameters")).map declaration).filterMap _) = raw.filterMap _
    rw [List.filterMap_map,List.filterMap_filterMap]
    exact List.filterMap_congr fun t _ => hspec t

/-- One list of tools is declared as it was read. -/
theorem geminiTools_read {tools : Option (List Json)} (h : (tools.getD []).length ≤ 1) :
    ((((tools.bind List.head?).map declarations).getD []).map declaration).filterMap
      (toolRead (fun schema => (geminiParameters schema).map (·.print)) "parameters") = (tools.getD []).flatMap geminiTools := by
  match tools with
  | none | some [] => rfl
  | some [t] =>
    rw [Option.getD_some,List.flatMap_singleton]
    exact geminiTools_declarations t
  | some (t :: t' :: tools) => exact absurd h (by simp)

theorem declaration_eq_nil_iff (tools : List ToolSpec) :
    tools = [] ↔ (tools.map declaration).filterMap (toolRead (fun schema => (geminiParameters schema).map (·.print)) "parameters") = [] := by
  rw [List.filterMap_map,List.filterMap_eq_nil_iff]
  constructor
  · intro hnil t ht
    rw [hnil] at ht
    exact absurd ht List.not_mem_nil
  · intro hnone
    rw [List.eq_nil_iff_forall_not_mem]
    intro t ht
    have hread := hnone t ht
    rw [Function.comp_apply,toolRead_declaration] at hread
    exact nomatch hread

/-- A flat mode that names no tools is read as what the parser makes of it. -/
theorem mode_read {config : Option Json} (h : ∀ c, config = some c → c.get "functionCallingConfig" = none ∧ allowedNames c = []) :
    config.bind geminiChoice = (config.bind (textAt "mode")).bind parseGeminiMode := by
  cases config with
  | none => rfl
  | some c =>
    obtain ⟨hnested,hallowed⟩ := h c rfl
    rw [Option.bind_some,Option.bind_some,geminiChoice,hnested,Option.getD_none,hallowed]
    generalize (textAt "mode" c).bind parseGeminiMode = mode
    cases mode with
    | none => rfl
    | some choice => cases choice <;> rfl

theorem geminiToolConfig_read (mode : Option String) :
    ((mode.bind parseGeminiMode).map geminiToolConfig).bind geminiChoice = mode.bind parseGeminiMode := by
  cases mode with
  | none => rfl
  | some mode =>
    rw [Option.bind_some]
    obtain hmode | hmode | hmode | hmode := parseGeminiMode_cases mode <;> rw [hmode] <;> rfl

/-- A Gemini body whose turns answer no call is carried whole. -/
theorem gemini_carried {body : Json} {req : ChatRequest} (hparse : parseGeminiRequest lib body = .ok req) (providerModel : String)
    (h : GeminiPlain lib body) (hfloat : lib.KeepsFloats) :
    ∃ out, buildGeminiRequest lib req providerModel = .ok out ∧
      geminiConversation lib out.body = carriedGemini (geminiConversation lib body) := by
  obtain ⟨obj,raw,turns,hraw,hturns,rfl⟩ := parseGeminiRequest_eq_ok hparse
  have hcontents : (geminiConversation lib body).turns = raw.map geminiTurn := by
    show (((body.get "contents").bind Json.asArray).getD []).map geminiTurn = _
    rw [hraw]
    rfl
  have hplain := h.turns
  have hsome := h.some_turn
  have hreads := h.reads
  rw [hcontents] at hplain hsome
  rw [hraw] at hreads
  generalize hsystem : systemTurn (((body.get "systemInstruction").map geminiSystemText).getD "") ++ turns = all
  obtain ⟨hroles,hlength,hblocks⟩ := mapM_parseGeminiContent hturns
    (fun msg hmsg => hplain _ (List.mem_map_of_mem hmsg)) hreads all
  have hall : all.filter (·.role ≠ .system) = turns := hsystem ▸ filter_systemTurn _ hroles
  have hjoined : (joinedSystem all).getD "" = ((body.get "systemInstruction").map geminiSystemText).getD "" :=
    hsystem ▸ joinedSystem_systemTurn _ hroles
  have hturnsNe : turns ≠ [] := by
    rintro rfl
    exact hsome (by rw [List.length_eq_zero_iff.mp hlength.symm]; rfl)
  have hreqTools : ((geminiRequest lib body obj all).tools.map declaration).filterMap
      (toolRead (fun schema => (geminiParameters schema).map (·.print)) "parameters") = (geminiConversation lib body).tools := geminiTools_read h.tools
  have hempty : (geminiRequest lib body obj all).tools = [] ↔ (geminiConversation lib body).tools = [] := by
    rw [← hreqTools]
    exact declaration_eq_nil_iff _
  have hsame := mode_read h.choice
  refine ⟨⟨"POST","/v1beta/models/" ++ providerModel ++ ":generateContent",[("content-type","application/json")],
    geminiBody (geminiRequest lib body obj all) (turns.map (geminiContent lib all))⟩,?_,?_⟩
  · have hbuild : ((geminiRequest lib body obj all).messages.filter (·.role ≠ .system)).map
        (geminiContent lib (geminiRequest lib body obj all).messages) = turns.map (geminiContent lib all) := by
      show (all.filter (·.role ≠ .system)).map (geminiContent lib all) = _
      rw [hall]
    rw [buildGeminiRequest]
    simp only [hbuild,List.isEmpty_map,List.isEmpty_iff,if_neg hturnsNe]
    rfl
  · obtain ⟨hget,hgetContents,htools,hgetChoice,hgeneration⟩ :=
      get_geminiBody (geminiRequest lib body obj all) (turns.map (geminiContent lib all))
    obtain ⟨htemperature,htopP,hmax,hstop⟩ := get_generation (geminiRequest lib body obj all)
    ext1
    case system =>
      show (((geminiBody _ _).get "systemInstruction").map geminiSystemText).getD "" =
        ((body.get "systemInstruction").map geminiSystemText).getD ""
      rw [hget,← hjoined]
      show (((joinedSystem all).map _).map geminiSystemText).getD "" = (joinedSystem all).getD ""
      cases joinedSystem all <;> rfl
    case turns =>
      show ((((geminiBody _ _).get "contents").bind Json.asArray).getD []).map geminiTurn = _
      rw [hgetContents]
      show (turns.map (geminiContent lib all)).map geminiTurn = (geminiConversation lib body).turns.map _
      rw [hblocks,hcontents,List.map_map]
      rfl
    case tools =>
      show ((((geminiBody _ _).get "tools").bind Json.asArray).getD []).flatMap geminiTools = (geminiConversation lib body).tools
      rw [htools,← hreqTools]
      cases (geminiRequest lib body obj all).tools with
      | nil => rfl
      | cons t tools =>
        show List.flatMap geminiTools [_] = _
        rw [List.flatMap_singleton]
        rfl
    case toolChoice =>
      show ((geminiBody _ _).get "toolConfig").bind geminiChoice =
        if (geminiConversation lib body).tools = [] then none else (body.get "toolConfig").bind geminiChoice
      rw [hgetChoice,hsame]
      by_cases hnil : (geminiRequest lib body obj all).tools = []
      · rw [if_pos (List.isEmpty_iff.mpr hnil),if_pos (hempty.mp hnil)]
        rfl
      · rw [if_neg (fun he => hnil (List.isEmpty_iff.mp he)),if_neg (fun he => hnil (hempty.mpr he))]
        exact geminiToolConfig_read _
    case temperature =>
      show (((geminiBody _ _).get "generationConfig").bind (·.get "temperature")).bind lib.asF64 = _
      rw [hgeneration,htemperature]
      exact number_read hfloat _
    case topP =>
      show (((geminiBody _ _).get "generationConfig").bind (·.get "topP")).bind lib.asF64 = _
      rw [hgeneration,htopP]
      exact number_read hfloat _
    case maxTokens =>
      show (((geminiBody _ _).get "generationConfig").bind (·.get "maxOutputTokens")).bind Json.asU64 = (geminiRequest lib body obj all).maxTokens
      rw [hgeneration,hmax]
      cases (geminiRequest lib body obj all).maxTokens with
      | none => rfl
      | some n => rw [Option.map_some,Option.bind_some,asU64_count]
    case stop =>
      show (((geminiBody _ _).get "generationConfig").bind (·.get "stopSequences")).bind strings = (geminiRequest lib body obj all).stop
      rw [hgeneration,hstop]
      cases (geminiRequest lib body obj all).stop with
      | none => rfl
      | some texts => exact strings_strArray texts

end GeminiBody

end Dwara.Ai

/-! Native requests are read and written again without loss, as far as that goes. -/

namespace Dwara.Ai
open Dwara.Lib

/-- A native request that is read into the canonical one is carried whole by the body that is
built from it, when its turns answer no call. -/
theorem native_requests_carried (lib : JsonLib) (hfloat : lib.KeepsFloats) (providerModel : String) :
    (∀ body req, parseAnthropicRequest lib body = .ok req → AnthropicPlain lib body →
      ∃ out, buildAnthropicRequest lib req providerModel = .ok out ∧
        anthropicConversation lib out.body = carriedAnthropic (anthropicConversation lib body)) ∧
    (∀ body req, parseGeminiRequest lib body = .ok req → GeminiPlain lib body →
      ∃ out, buildGeminiRequest lib req providerModel = .ok out ∧
        geminiConversation lib out.body = carriedGemini (geminiConversation lib body)) := by
  constructor
  · intro body req hparse hplain
    exact anthropic_carried hparse providerModel hplain hfloat
  · intro body req hparse hplain
    exact gemini_carried hparse providerModel hplain hfloat

private def city : Json := .object [("city",.string "Oslo")]

/-- A JSON library that reads floats, integers, and the one object the samples write. -/
private def sampleLib : JsonLib where
  asF64
    | .float t => some t
    | .int n => some (toString n ++ ".0")
    | _ => none
  parse s := if s = city.toText then some city else none

private def message (role : String) (blocks : List Json) : Json := .object [("role",.string role),("content",.array blocks)]

private def parts (role : String) (blocks : List Json) : Json := .object [("role",.string role),("parts",.array blocks)]

private def weatherCall : Json :=
  .object [("type",.string "tool_use"),("id",.string "t1"),("name",.string "weather"),("input",city)]

private def picture : Json :=
  .object [("type",.string "image"),("source",.object [("type",.string "base64"),("media_type",.string "image/png"),("data",.string "aGk=")])]

private def answered : Json :=
  .object [("type",.string "tool_result"),("tool_use_id",.string "t1"),("content",.string "rain")]

private def anthropicSample (messages : List Json) : Json :=
  .object [("model",.string "m"),("messages",.array messages),("max_tokens",.int 100),("temperature",.int 1)]

private def geminiSample (contents : List Json) : Json := .object [("contents",.array contents)]

private def functionCall : Json := .object [("functionCall",.object [("name",.string "weather"),("args",city)])]

private def functionAnswer : Json :=
  .object [("functionResponse",.object [("name",.string "weather"),("response",.object [("sky",.string "rain")])])]

theorem native_requests_carried_weather :
    (∃ req, parseAnthropicRequest sampleLib (anthropicSample [message "user" [textBlock "Weather?",picture],message "assistant" [weatherCall]]) = .ok req ∧
      ∃ out, buildAnthropicRequest sampleLib req "p" = .ok out ∧ anthropicConversation sampleLib out.body = carriedAnthropic
        (anthropicConversation sampleLib (anthropicSample [message "user" [textBlock "Weather?",picture],message "assistant" [weatherCall]]))) ∧
    (∃ req, parseGeminiRequest sampleLib (geminiSample [parts "user" [textPart "Weather?"],parts "model" [functionCall]]) = .ok req ∧
      ∃ out, buildGeminiRequest sampleLib req "p" = .ok out ∧ geminiConversation sampleLib out.body = carriedGemini
        (geminiConversation sampleLib (geminiSample [parts "user" [textPart "Weather?"],parts "model" [functionCall]]))) := by
  have hfloat : sampleLib.KeepsFloats := fun _ _ _ => rfl
  have hparse : (if city.toText = city.toText then some city else none) = some city := if_pos rfl
  have hcity : Rereads sampleLib city := ⟨city,hparse,rfl,rfl⟩
  obtain ⟨hanthropic,hgemini⟩ := native_requests_carried sampleLib hfloat "p"
  constructor
  · refine ⟨_,rfl,hanthropic _ _ rfl ⟨by decide +kernel,?_,by decide +kernel,?_⟩⟩
    · intro t ht
      have hturns : t = ("user",[.text "Weather?",.image "image/png" "aGk="]) ∨ t = ("assistant",[.toolUse "t1" "weather" city.print]) := by
        simpa using (show t ∈ [("user",[Block.text "Weather?",.image "image/png" "aGk="]),("assistant",[.toolUse "t1" "weather" city.print])] from ht)
      obtain rfl | rfl := hturns <;> simp [PlainTurn,Block.isToolUse]
    · intro msg hmsg input hinput
      have hmessages : msg = message "user" [textBlock "Weather?",picture] ∨ msg = message "assistant" [weatherCall] := by
        simpa using (show msg ∈ [message "user" [textBlock "Weather?",picture],message "assistant" [weatherCall]] from hmsg)
      obtain rfl | rfl := hmessages
      · exact absurd (show input ∈ ([] : List Json) from hinput) List.not_mem_nil
      · obtain rfl := List.mem_singleton.mp (show input ∈ [city] from hinput)
        exact hcity
  · refine ⟨_,rfl,hgemini _ _ rfl ⟨by decide +kernel,?_,by decide +kernel,fun _ h => (nomatch h),?_⟩⟩
    · intro t ht
      have hturns : t = ("user",[.text "Weather?"]) ∨ t = ("model",[.toolUse "" "weather" city.print]) := by
        simpa using (show t ∈ [("user",[Block.text "Weather?"]),("model",[.toolUse "" "weather" city.print])] from ht)
      obtain rfl | rfl := hturns <;> simp [PlainContent,Block.isToolUse,Block.isImage]
    · intro msg hmsg args hargs
      have hmessages : msg = parts "user" [textPart "Weather?"] ∨ msg = parts "model" [functionCall] := by
        simpa using (show msg ∈ [parts "user" [textPart "Weather?"],parts "model" [functionCall]] from hmsg)
      obtain rfl | rfl := hmessages
      · exact absurd (show args ∈ ([] : List Json) from hargs) List.not_mem_nil
      · obtain rfl := List.mem_singleton.mp (show args ∈ [city] from hargs)
        exact hcity

/-- The turns of a body, as they are sent on. -/
private def anthropicSent (body : Json) : Option (List (String × List Block)) :=
  ((parseAnthropicRequest sampleLib body).toOption.bind fun req => (buildAnthropicRequest sampleLib req "p").toOption).map
    fun out => (anthropicConversation sampleLib out.body).turns

private def geminiSent (body : Json) : Option (List (String × List Block)) :=
  ((parseGeminiRequest sampleLib body).toOption.bind fun req => (buildGeminiRequest sampleLib req "p").toOption).map
    fun out => (geminiConversation sampleLib out.body).turns

/-- A text is put in front of an image it came after. An answer to a call is sent as a text to
Anthropic, and to Gemini not at all. -/
theorem native_requests_changed :
    (anthropicConversation sampleLib (anthropicSample [message "user" [picture,textBlock "What is it?"]])).turns =
        [("user",[.image "image/png" "aGk=",.text "What is it?"])] ∧
      anthropicSent (anthropicSample [message "user" [picture,textBlock "What is it?"]]) =
        some [("user",[.text "What is it?",.image "image/png" "aGk="])] ∧
      (anthropicConversation sampleLib (anthropicSample [message "user" [answered]])).turns = [("user",[.toolResult])] ∧
      anthropicSent (anthropicSample [message "user" [answered]]) = some [("user",[.text "rain"])] ∧
      (geminiConversation sampleLib (geminiSample [parts "user" [functionAnswer]])).turns = [("user",[.toolResult])] ∧
      geminiSent (geminiSample [parts "user" [functionAnswer]]) = some [("user",[])] := by
  decide +kernel

end Dwara.Ai
