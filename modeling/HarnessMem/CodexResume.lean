import HarnessMem.CodexSessions

/-! One Codex line normalized in two contexts: the same events where the last texts agree, and
only the rest of a compacted line where the first of its events are in the context already. -/
namespace HarnessMem.CodexSessions
open Js Text JsonLines

structure SameTexts (c t : SessionContext) : Prop where
  prompt : c.lastUserPrompt = t.lastUserPrompt
  content : c.lastAssistantContent = t.lastAssistantContent

theorem SameTexts.refl (c : SessionContext) : SameTexts c c := ⟨rfl, rfl⟩
theorem SameTexts.trans {a b c : SessionContext} (first : SameTexts a b) (second : SameTexts b c) : SameTexts a c :=
  ⟨first.prompt.trans second.prompt, first.content.trans second.content⟩
theorem SameTexts.symm {a b : SessionContext} (same : SameTexts a b) : SameTexts b a :=
  ⟨same.prompt.symm, same.content.symm⟩

-- The same event under another session and project.
def stamp (sessionId project : String) (e : NormalizedCodexEvent) : NormalizedCodexEvent :=
  {e with sessionId := sessionId, project := project}

@[simp] theorem stampSession (sessionId project : String) (e : NormalizedCodexEvent) :
    (stamp sessionId project e).sessionId = sessionId := rfl
@[simp] theorem stampProject (sessionId project : String) (e : NormalizedCodexEvent) :
    (stamp sessionId project e).project = project := rfl

def rememberEvent (context : SessionContext) (e : NormalizedCodexEvent) : SessionContext :=
  remember context e.eventType e.payload

theorem rememberTexts {c t : SessionContext} (same : SameTexts c t) (eventType : String) (payload : List (String × Json)) :
    SameTexts (remember c eventType payload) (remember t eventType payload) := by
  unfold remember
  split
  · exact ⟨by simp only [same.prompt], same.content⟩
  split
  · exact ⟨same.prompt, by simp only [same.content]⟩
  · exact same

theorem rememberIds (c : SessionContext) (eventType : String) (payload : List (String × Json)) :
    (remember c eventType payload).sessionId = c.sessionId ∧ (remember c eventType payload).project = c.project := by
  unfold remember
  split
  · exact ⟨rfl, rfl⟩
  split <;> exact ⟨rfl, rfl⟩

def recoveredUser (line : Line) (context : SessionContext) (index : Nat) (prompt : String) : NormalizedCodexEvent :=
  event line context "user_prompt"
    [("source_type", .str "compacted"), ("role", .str "user"), ("prompt", .str prompt), ("content", .str prompt)]
    (some ("compacted-user-" ++ toString index))

def recoveredAssistant (line : Line) (context : SessionContext) (index : Nat) (content : String) : NormalizedCodexEvent :=
  event line context "checkpoint"
    [("source_type", .str "compacted"), ("role", .str "assistant"), ("type", .str "assistant_message"),
      ("title", .str "assistant_response"), ("content", .str content), ("last_agent_message", .str content),
      ("prompt", .str (trim context.lastUserPrompt)), ("turn_id", .str "")]
    (some ("compacted-assistant-" ++ toString index))

-- What one item of a replacement history can do: nothing, a prompt, or an answer.
inductive Recovers (item : Json) : Prop where
  | skips (by_ : ∀ line index context others, recover line index context (item :: others) =
      recover line (index + 1) context others)
  | asks (prompt : String) (found : prompt ≠ "") (trimmed : Trimmed prompt)
      (by_ : ∀ line index context others, recover line index context (item :: others) =
        recoveredUser line context index prompt :: recover line (index + 1) {context with lastUserPrompt := prompt} others)
  | answers (content : String) (found : content ≠ "") (trimmed : Trimmed content)
      (by_ : ∀ line index context others, recover line index context (item :: others) =
        recoveredAssistant line context index content ::
          recover line (index + 1) {context with lastAssistantContent := content} others)

theorem recovers (item : Json) : Recovers item := by
  by_cases message : str (Json.get (toRecord (some item)) "type") ≠ "message"
  · exact .skips (fun _ _ _ _ => by rw [recover, if_pos message])
  by_cases user : str (Json.get (toRecord (some item)) "role") = "user"
  · by_cases empty : extractMessageText (Json.get (toRecord (some item)) "content") userTypes = ""
    · exact .skips (fun _ _ _ _ => by rw [recover, if_neg message, if_pos user, if_pos empty])
    · exact .asks _ empty (textBlocksTrimmed _ _)
        (fun _ _ _ _ => by rw [recover, if_neg message, if_pos user, if_neg empty, recoveredUser])
  by_cases assistant : str (Json.get (toRecord (some item)) "role") ≠ "assistant"
  · exact .skips (fun _ _ _ _ => by rw [recover, if_neg message, if_neg user, if_pos assistant])
  by_cases empty : extractMessageText (Json.get (toRecord (some item)) "content") assistantTypes = ""
  · exact .skips (fun _ _ _ _ => by rw [recover, if_neg message, if_neg user, if_neg assistant, if_pos empty])
  · exact .answers _ empty (textBlocksTrimmed _ _)
      (fun _ _ _ _ => by rw [recover, if_neg message, if_neg user, if_neg assistant, if_neg empty, recoveredAssistant])

theorem recoverStamped (line other : Line) {c t : SessionContext} {sessionId project : String}
    (same : c.lastUserPrompt = t.lastUserPrompt) (session : resolveSessionId line c = sessionId)
    (named : resolveProject line c = project) (index : Nat) (items : List Json) :
    recover line index c items = (recover other index t items).map (stamp sessionId project) := by
  induction items generalizing index c t with
  | nil => rfl
  | cons item others ih =>
    cases recovers item with
    | skips by_ => rw [by_, by_, ih same session named]
    | asks prompt _ _ by_ =>
      rw [by_, by_, List.map_cons, ih _ _ _ (index + 1)]
      · exact congrArg₂ List.cons (by simp only [recoveredUser, event, stamp, session, named]) rfl
      · rfl
      · exact session
      · exact named
    | answers content _ _ by_ =>
      rw [by_, by_, List.map_cons, ih _ _ _ (index + 1)]
      · exact congrArg₂ List.cons (by rw [recoveredAssistant, event, recoveredAssistant, event, stamp, session, named, same]) rfl
      · exact same
      · exact session
      · exact named

theorem recoverAgain (line : Line) {c t : SessionContext} (same : c.lastUserPrompt = t.lastUserPrompt)
    (session : resolveSessionId line c = resolveSessionId line t) (named : resolveProject line c = resolveProject line t)
    (index : Nat) (items : List Json) : recover line index c items = recover line index t items :=
  (recoverStamped line line same session named index items).trans
    (recoverStamped line line rfl rfl rfl index items).symm

theorem unseenStamped {c t : SessionContext} (same : SameTexts c t) (sessionId project : String)
    (recovered : List NormalizedCodexEvent) :
    unseen c (recovered.map (stamp sessionId project)) = (unseen t recovered).map (stamp sessionId project) := by
  have known : (fun item : NormalizedCodexEvent => !knownText c item.eventType item.payload) ∘ stamp sessionId project =
      fun item => !knownText t item.eventType item.payload := by
    funext item
    unfold knownText
    rw [← same.prompt, ← same.content]
    rfl
  simp only [unseen, ← List.map_reverse, List.takeWhile_map, known]

theorem normalizeEventStamped (parsed payload : List (String × Json)) (a b : Source) {c t : SessionContext}
    (same : SameTexts c t) : normalizeEvent ⟨parsed, payload, a⟩ c =
      (normalizeEvent ⟨parsed, payload, b⟩ t).map
        (stamp (resolveSessionId ⟨parsed, payload, a⟩ c) (resolveProject ⟨parsed, payload, a⟩ c)) := by
  simp only [normalizeEvent, same.content]
  split
  · split
    · rfl
    split
    · split <;> rfl
    split
    · rfl
    split
    · rfl
    · simp only [createAssistantCheckpoint, event, stamp, Option.map, same.prompt]
  split
  · split
    · split
      · rfl
      · simp only [createAssistantCheckpoint, event, stamp, Option.map, same.prompt]
    split
    · rfl
    split
    · rfl
    · simp only [event, stamp, Option.map, same.prompt]
  · rfl

theorem normalizeStamped (parsed payload : List (String × Json)) (a b : Source) {c t : SessionContext}
    (same : SameTexts c t) : normalizeEvents ⟨parsed, payload, a⟩ c =
      (normalizeEvents ⟨parsed, payload, b⟩ t).map
        (stamp (resolveSessionId ⟨parsed, payload, a⟩ c) (resolveProject ⟨parsed, payload, a⟩ c)) := by
  simp only [normalizeEvents]
  split
  · have own : c.normal.lastUserPrompt = t.normal.lastUserPrompt := congrArg trim same.prompt
    have ids : resolveSessionId ⟨parsed, payload, a⟩ c.normal = resolveSessionId ⟨parsed, payload, a⟩ c ∧
        resolveProject ⟨parsed, payload, a⟩ c.normal = resolveProject ⟨parsed, payload, a⟩ c := by
      simp only [resolveSessionId, resolveProject, SessionContext.normal, trimIdem, and_self]
    rw [normalizeCompactedEvents, recoverStamped _ ⟨parsed, payload, b⟩ own ids.1 ids.2, unseenStamped same]
    rfl
  · rw [normalizeEventStamped parsed payload a b same]
    cases normalizeEvent ⟨parsed, payload, b⟩ t <;> rfl

-- Where every event found comes out under the same names, the two contexts find the same events.
theorem normalizeSame (parsed payload : List (String × Json)) (a b : Source) {c t : SessionContext} (same : SameTexts c t)
    (ids : normalizeEvents ⟨parsed, payload, b⟩ t ≠ [] →
      resolveSessionId ⟨parsed, payload, a⟩ c = resolveSessionId ⟨parsed, payload, b⟩ t ∧
        resolveProject ⟨parsed, payload, a⟩ c = resolveProject ⟨parsed, payload, b⟩ t) :
    normalizeEvents ⟨parsed, payload, a⟩ c = normalizeEvents ⟨parsed, payload, b⟩ t := by
  rw [normalizeStamped parsed payload a b same]
  by_cases none : normalizeEvents ⟨parsed, payload, b⟩ t = []
  · rw [none]
    rfl
  · rw [(ids none).1, (ids none).2]
    exact (normalizeStamped parsed payload b b (SameTexts.refl t)).symm

-- What the two kinds of recovered events have in common.
structure Plain (e : NormalizedCodexEvent) : Prop where
  content : contentOf e.payload ≠ ""
  kind : e.eventType = "checkpoint" ∨ (e.eventType = "user_prompt" ∧ promptOf e.payload = contentOf e.payload)

def shape (e : NormalizedCodexEvent) : String × String := (e.eventType, contentOf e.payload)

theorem userShape (line : Line) (context : SessionContext) (index : Nat) (prompt : String) :
    shape (recoveredUser line context index prompt) = ("user_prompt", trim prompt) := by
  simp [shape, contentOf, recoveredUser, event, Json.get, str, Json.text?]

theorem assistantShape (line : Line) (context : SessionContext) (index : Nat) (content : String) :
    shape (recoveredAssistant line context index content) = ("checkpoint", trim content) := by
  simp [shape, contentOf, recoveredAssistant, event, Json.get, str, Json.text?]

theorem userPlain (line : Line) (context : SessionContext) (index : Nat) {prompt : String} (found : prompt ≠ "")
    (trimmed : Trimmed prompt) : Plain (recoveredUser line context index prompt) := by
  have content : contentOf (recoveredUser line context index prompt).payload = prompt :=
    (congrArg Prod.snd (userShape line context index prompt)).trans trimmed
  refine ⟨fun empty => found (content.symm.trans empty), .inr ⟨rfl, ?_⟩⟩
  rw [promptOf, content]
  simp [recoveredUser, event, Json.get, str, Json.text?, show trim prompt = prompt from trimmed, firstOf, found]

theorem assistantPlain (line : Line) (context : SessionContext) (index : Nat) {content : String} (found : content ≠ "")
    (trimmed : Trimmed content) : Plain (recoveredAssistant line context index content) := by
  have same : contentOf (recoveredAssistant line context index content).payload = content :=
    (congrArg Prod.snd (assistantShape line context index content)).trans trimmed
  exact ⟨fun empty => found (same.symm.trans empty), .inl rfl⟩

theorem recoverPlain (line : Line) (index : Nat) (context : SessionContext) (items : List Json) :
    ∀ e ∈ recover line index context items, Plain e := by
  induction items generalizing index context with
  | nil => exact fun e mem => absurd mem List.not_mem_nil
  | cons item others ih =>
    intro e mem
    cases recovers item with
    | skips by_ =>
      rw [by_] at mem
      exact ih _ _ e mem
    | asks prompt found trimmed by_ =>
      rw [by_] at mem
      rcases List.mem_cons.mp mem with same | later
      · exact same ▸ userPlain line context index found trimmed
      · exact ih _ _ e later
    | answers content found trimmed by_ =>
      rw [by_] at mem
      rcases List.mem_cons.mp mem with same | later
      · exact same ▸ assistantPlain line context index found trimmed
      · exact ih _ _ e later

theorem recoverShapes (line : Line) (index : Nat) (c t : SessionContext) (items : List Json) :
    (recover line index c items).map shape = (recover line index t items).map shape := by
  induction items generalizing index c t with
  | nil => rfl
  | cons item others ih =>
    cases recovers item with
    | skips by_ => rw [by_, by_, ih]
    | asks prompt _ _ by_ => rw [by_, by_, List.map_cons, List.map_cons, userShape, userShape, ih]
    | answers content _ _ by_ => rw [by_, by_, List.map_cons, List.map_cons, assistantShape, assistantShape, ih]

-- From the first user prompt on, nothing depends on the prompt the loop started with.
theorem recoverDrop (line : Line) (index : Nat) {c t : SessionContext}
    (session : resolveSessionId line c = resolveSessionId line t) (named : resolveProject line c = resolveProject line t)
    (items : List Json) (count : Nat)
    (user : ∃ e ∈ (recover line index t items).take count, e.eventType = "user_prompt") :
    (recover line index c items).drop count = (recover line index t items).drop count := by
  induction items generalizing index c t count with
  | nil => rfl
  | cons item others ih =>
    cases count with
    | zero => exact absurd user (by simp)
    | succ count =>
      cases recovers item with
      | skips by_ =>
        rw [by_] at user
        rw [by_, by_]
        exact ih (index + 1) session named (count + 1) user
      | asks prompt _ _ by_ =>
        rw [by_, by_, List.drop_succ_cons, List.drop_succ_cons, recoverAgain line _ _ _ (index + 1)]
        · rfl
        · exact session
        · exact named
      | answers content _ _ by_ =>
        obtain ⟨e, mem, type⟩ := user
        rw [by_, List.take_succ_cons] at mem
        rw [by_, by_, List.drop_succ_cons, List.drop_succ_cons]
        rcases List.mem_cons.mp mem with same | later
        · rw [same] at type
          exact absurd type (show "checkpoint" ≠ "user_prompt" by decide)
        · refine ih (index + 1) ?_ ?_ count ⟨e, later, type⟩
          · exact session
          · exact named

theorem unseenSuffix (context : SessionContext) (recovered : List NormalizedCodexEvent) :
    unseen context recovered <:+ recovered := by
  unfold unseen
  rw [← List.reverse_prefix, List.reverse_reverse]
  exact List.takeWhile_prefix _

theorem unseenAfter {context : SessionContext} {last : NormalizedCodexEvent} {pending : List NormalizedCodexEvent}
    (known : knownText context last.eventType last.payload = true)
    (new : ∀ e ∈ pending, knownText context e.eventType e.payload = false) (front : List NormalizedCodexEvent) :
    unseen context (front ++ last :: pending) = pending := by
  have skip : ∀ e ∈ pending.reverse, (!knownText context e.eventType e.payload) = true :=
    fun e mem => by rw [new e (List.mem_reverse.mp mem)]; rfl
  unfold unseen
  rw [List.reverse_append, List.reverse_cons, List.append_assoc, List.takeWhile_append_of_pos skip,
    List.singleton_append, List.takeWhile_cons_of_neg (by simp [known]), List.append_nil, List.reverse_reverse]

theorem knownShape {context : SessionContext} {e other : NormalizedCodexEvent} (plain : Plain e) (alike : Plain other)
    (same : shape e = shape other) : knownText context e.eventType e.payload = knownText context other.eventType other.payload := by
  obtain ⟨type, content⟩ := Prod.mk.inj same
  unfold knownText
  rw [← type, ← content]
  rcases plain.kind with checkpoint | ⟨user, asked⟩
  · simp [checkpoint]
  · rcases alike.kind with other | ⟨_, others⟩
    · exact absurd (user.symm.trans (type.trans other)) (by decide)
    · rw [asked, others, content]

-- An event is known as soon as it is remembered.
theorem rememberKnown {context : SessionContext} {e : NormalizedCodexEvent} (plain : Plain e) :
    knownText (rememberEvent context e) e.eventType e.payload = true := by
  have trimmed : trim (contentOf e.payload) = contentOf e.payload := strTrimmed _
  unfold knownText rememberEvent remember
  rcases plain.kind with checkpoint | ⟨user, asked⟩
  · simp [checkpoint, firstOf, plain.content, trimmed]
  · simp [user, asked, firstOf, plain.content, trimmed]

theorem knownTexts {c t : SessionContext} (same : SameTexts c t) (eventType : String) (payload : List (String × Json)) :
    knownText c eventType payload = knownText t eventType payload := by
  unfold knownText
  rw [same.prompt, same.content]

theorem rememberedPrompt {context : SessionContext} {done : List NormalizedCodexEvent}
    (none : ∀ e ∈ done, e.eventType ≠ "user_prompt") :
    (done.foldl rememberEvent context).lastUserPrompt = context.lastUserPrompt := by
  induction done generalizing context with
  | nil => rfl
  | cons e done ih =>
    rw [List.foldl_cons, ih (fun other mem => none other (List.mem_cons_of_mem _ mem)), rememberEvent, remember,
      if_neg (none e List.mem_cons_self)]
    split <;> rfl

-- Once the first of a line's new events are in the context, only the others are new.
theorem compactedResumed {line : Line} {c t : SessionContext} (settled : c.Settled) (before : t.Settled)
    (ids : c.sessionId = t.sessionId ∧ c.project = t.project) {done pending : List NormalizedCodexEvent}
    (split : normalizeCompactedEvents line t = done ++ pending) (some : done ≠ [])
    (texts : SameTexts c (done.foldl rememberEvent t))
    (new : ∀ e ∈ pending, knownText c e.eventType e.payload = false) : normalizeCompactedEvents line c = pending := by
  unfold normalizeCompactedEvents at split ⊢
  rw [show c.normal = c from settled]
  rw [show t.normal = t from before] at split
  generalize toArray (Json.get line.payload "replacement_history") = items at split ⊢
  have session : resolveSessionId line c = resolveSessionId line t := by rw [resolveSessionId, resolveSessionId, ids.1]
  have named : resolveProject line c = resolveProject line t := by rw [resolveProject, resolveProject, ids.2]
  obtain ⟨earlier, whole⟩ := unseenSuffix t (recover line 0 t items)
  rw [split] at whole
  obtain ⟨first, last, rfl⟩ := List.eq_nil_or_concat done |>.resolve_left some
  rw [List.concat_eq_append] at texts whole
  have rest : (recover line 0 c items).drop (earlier ++ first ++ [last]).length = pending := by
    have drops : (recover line 0 t items).drop (earlier ++ first ++ [last]).length = pending := by
      rw [← whole, ← List.append_assoc, ← List.append_assoc, List.drop_left]
    by_cases user : ∃ e ∈ first ++ [last], e.eventType = "user_prompt"
    · obtain ⟨e, mem, type⟩ := user
      rw [recoverDrop line 0 session named items _ ⟨e, ?_, type⟩, drops]
      rw [← whole, ← List.append_assoc, ← List.append_assoc, List.take_left, List.append_assoc]
      exact List.mem_append_right _ mem
    · have prompt : ((first ++ [last]).foldl rememberEvent t).lastUserPrompt = t.lastUserPrompt :=
        rememberedPrompt (fun e mem type => user ⟨e, mem, type⟩)
      rw [recoverAgain line (texts.prompt.trans prompt) session named, drops]
  obtain ⟨other, found, same⟩ : ∃ other, (recover line 0 c items)[(earlier ++ first).length]? = Option.some other ∧
      shape other = shape last := by
    have shapes := congrArg (·[(earlier ++ first).length]?) (recoverShapes line 0 c t items)
    simp only [List.getElem?_map, ← whole] at shapes
    rw [← List.append_assoc, ← List.append_assoc, List.append_assoc, List.getElem?_append_right (le_refl _)] at shapes
    simpa [Option.map_eq_some_iff] using shapes
  have mine : recover line 0 c items = (recover line 0 c items).take (earlier ++ first).length ++ other :: pending := by
    conv_lhs => rw [← List.take_append_drop (earlier ++ first).length (recover line 0 c items)]
    have size : (earlier ++ first ++ [last]).length = (earlier ++ first).length + 1 := List.length_append
    rw [List.drop_eq_getElem?_toList_append, found, ← rest, size]
    rfl
  have member : last ∈ recover line 0 t items := by rw [← whole]; simp
  have plain := recoverPlain line 0 t items last member
  have alike := recoverPlain line 0 c items other (List.mem_of_getElem? found)
  rw [mine]
  refine unseenAfter ?_ new _
  rw [knownShape alike plain same, knownTexts texts, List.foldl_append]
  exact rememberKnown plain

theorem normalizeResumed (parsed payload : List (String × Json)) (a b : Source) {c t : SessionContext}
    (settled : c.Settled) (before : t.Settled)
    (ids : resolveSessionId ⟨parsed, payload, a⟩ c = resolveSessionId ⟨parsed, payload, b⟩ t ∧
      resolveProject ⟨parsed, payload, a⟩ c = resolveProject ⟨parsed, payload, b⟩ t)
    {done pending : List NormalizedCodexEvent} (split : normalizeEvents ⟨parsed, payload, b⟩ t = done ++ pending)
    (some : done ≠ []) (left : pending ≠ []) (texts : SameTexts c (done.foldl rememberEvent t))
    (new : ∀ e ∈ pending, knownText c e.eventType e.payload = false) :
    normalizeEvents ⟨parsed, payload, a⟩ c = pending := by
  -- The stored context under the names of the pass.
  let named : SessionContext := {c with sessionId := t.sessionId, project := t.project}
  have namedSettled : named.Settled := by
    obtain ⟨_, _, prompt, content⟩ := SessionContext.settledIff.mp settled
    obtain ⟨session, project, _, _⟩ := SessionContext.settledIff.mp before
    exact SessionContext.settledIff.mpr ⟨session, project, prompt, content⟩
  have same : normalizeEvents ⟨parsed, payload, a⟩ c = normalizeEvents ⟨parsed, payload, b⟩ named :=
    normalizeSame parsed payload a b ⟨rfl, rfl⟩ (fun _ => ids)
  rw [same]
  by_cases compacted : str (Json.get parsed "type") = "compacted"
  · rw [normalizeEvents, if_pos compacted] at split ⊢
    exact compactedResumed namedSettled before ⟨rfl, rfl⟩ split some ⟨texts.prompt, texts.content⟩ new
  · have one := congrArg List.length split
    rw [normalizeEvents, if_neg compacted, List.length_append] at one
    have := List.length_pos_iff.mpr some
    have := List.length_pos_iff.mpr left
    have : (normalizeEvent ⟨parsed, payload, b⟩ t).toList.length ≤ 1 := by
      cases normalizeEvent ⟨parsed, payload, b⟩ t <;> simp
    omega

end HarnessMem.CodexSessions
