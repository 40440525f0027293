import AigentSquad.EventStream
import AigentSquad.JsonLayout
import AigentSquad.SseStream

/-!
# Chat frames on the wire

The body of a streamed completion as bytes: each frame is a `data` field with
the chunk as pydantic prints it. The gateway hands the bytes on in whatever
pieces they arrive.
-/

set_option autoImplicit false

namespace AigentSquad.ChatFrames
open AigentSquad.PyText AigentSquad.PyJson AigentSquad.EventStream AigentSquad.SseStream
open AigentSquad.Effects AigentSquad.Interaction

/-! ## Printing -/

/-- The layout of `model_dump_json`. -/
def compact : Layout := ⟨none, [], [], by decide⟩

def optional : Option Str → Json
  | none => .null
  | some text => .str text

def delta_json (d : DeltaContent) : Json :=
  .obj [("role".toList, optional d.role), ("content".toList, optional d.content)]

def choice_json (c : ChunkChoice) : Json :=
  .obj [("index".toList, .int c.index), ("delta".toList, delta_json c.delta),
    ("finish_reason".toList, optional c.finish_reason)]

def chunk_json (c : ChatCompletionChunk) : Json :=
  .obj [("id".toList, .str c.id), ("object".toList, .str c.object),
    ("created".toList, .int c.created), ("model".toList, .str c.model),
    ("choices".toList, .arr (c.choices.map choice_json))]

def model_dump_json (c : ChatCompletionChunk) : Str := render false compact 0 (chunk_json c)

def payload : Frame → Str
  | .data chunk => model_dump_json chunk
  | .DONE => "[DONE]".toList

/-- A `data` field and the blank line after it. -/
def frame_text (f : Frame) : Str := "data: ".toList ++ payload f ++ "\n\n".toList

def utf8 (s : Str) : List UInt8 := s.flatMap String.utf8EncodeChar

/-- The body of a response. -/
def body (frames : List Frame) : List UInt8 := utf8 (frames.flatMap frame_text)

/-! ## Reading -/

def bytes : Alphabet UInt8 where
  lf := 10
  cr := 13
  colon := 58
  space := 32
  data := [100, 97, 116, 97]
  lf_ne_cr := by decide
  colon_ne_lf := by decide
  colon_ne_cr := by decide
  space_ne_lf := by decide
  space_ne_cr := by decide
  data_plain := by
    intro x hx
    simp only [List.mem_cons, List.not_mem_nil, or_false] at hx
    rcases hx with rfl | rfl | rfl | rfl <;> exact ⟨by decide, by decide, by decide⟩

def decode (data : List UInt8) : Option Str := data.toByteArray.utf8Decode?.map Array.toList

def optional_of : Json → Option (Option Str)
  | .null => some none
  | .str text => some (some text)
  | _ => none

def delta_of : Json → Option DeltaContent
  | .obj pairs => do
    let role ← (Json.get pairs "role".toList).bind optional_of
    let content ← (Json.get pairs "content".toList).bind optional_of
    pure ⟨role, content⟩
  | _ => none

def natural_of : Json → Option ℕ
  | .int (.ofNat n) => some n
  | _ => none

def text_of : Json → Option Str
  | .str text => some text
  | _ => none

def choice_of : Json → Option ChunkChoice
  | .obj pairs => do
    let index ← (Json.get pairs "index".toList).bind natural_of
    let delta ← (Json.get pairs "delta".toList).bind delta_of
    let finish_reason ← (Json.get pairs "finish_reason".toList).bind optional_of
    pure ⟨index, delta, finish_reason⟩
  | _ => none

def items_of : Json → Option (List Json)
  | .arr items => some items
  | _ => none

def chunk_of : Json → Option ChatCompletionChunk
  | .obj pairs => do
    let id ← (Json.get pairs "id".toList).bind text_of
    let object ← (Json.get pairs "object".toList).bind text_of
    let created ← (Json.get pairs "created".toList).bind natural_of
    let model ← (Json.get pairs "model".toList).bind text_of
    let items ← (Json.get pairs "choices".toList).bind items_of
    let choices ← items.mapM choice_of
    pure ⟨id, object, created, model, choices⟩
  | _ => none

/-- What a client makes of the data of one event. -/
def frame_of (py : Runtime) (data : List UInt8) : Option Frame := do
  let text ← decode data
  if text = "[DONE]".toList then some .DONE
  else
    match loads py text with
    | .ok value => (chunk_of value).map .data
    | .error _ => none

/-- The frames a client reads from a body that arrives in pieces. -/
def client (py : Runtime) (pieces : List (List UInt8)) : Option (List Frame) :=
  (events bytes pieces).mapM (frame_of py)

/-! ## Chunks -/

theorem optional_read (o : Option Str) : optional_of (optional o) = some o := by
  cases o <;> rfl

theorem delta_read (d : DeltaContent) : delta_of (delta_json d) = some d := by
  have hrole : Json.get [("role".toList, optional d.role), ("content".toList, optional d.content)]
      "role".toList = some (optional d.role) := rfl
  have hcontent : Json.get [("role".toList, optional d.role),
      ("content".toList, optional d.content)] "content".toList = some (optional d.content) := rfl
  simp only [delta_of, delta_json, hrole, hcontent, Option.bind_some, optional_read]
  rfl

theorem choice_read (c : ChunkChoice) : choice_of (choice_json c) = some c := by
  unfold choice_of choice_json
  dsimp only
  rw [show Json.get _ "index".toList = some (.int c.index) from rfl,
    show Json.get _ "delta".toList = some (delta_json c.delta) from rfl,
    show Json.get _ "finish_reason".toList = some (optional c.finish_reason) from rfl]
  simp only [Option.bind_some, optional_read, delta_read]
  rfl

theorem chunk_read (c : ChatCompletionChunk) : chunk_of (chunk_json c) = some c := by
  have hchoices : (c.choices.map choice_json).mapM choice_of = some c.choices := by
    induction c.choices with
    | nil => rfl
    | cons x xs ih => simp [choice_read, ih]
  unfold chunk_of chunk_json
  dsimp only
  rw [show Json.get _ "id".toList = some (.str c.id) from rfl,
    show Json.get _ "object".toList = some (.str c.object) from rfl,
    show Json.get _ "created".toList = some (.int c.created) from rfl,
    show Json.get _ "model".toList = some (.str c.model) from rfl,
    show Json.get _ "choices".toList = some (.arr (c.choices.map choice_json)) from rfl]
  simp only [Option.bind_some, text_of, natural_of, items_of]
  show (do let choices ← (c.choices.map choice_json).mapM choice_of; pure _) = _
  rw [hchoices]
  rfl

/-! ## Bytes -/

theorem decode_utf8 (s : Str) : decode (utf8 s) = some s := by
  have h : (utf8 s).toByteArray = s.utf8Encode := rfl
  rw [decode, h, List.utf8Decode?_utf8Encode]
  simp

theorem utf8_append (s t : Str) : utf8 (s ++ t) = utf8 s ++ utf8 t := List.flatMap_append

/-- The bytes of an encoding with more than one are 128 or above. -/
theorem marked (x m offset : ℕ) (hoffset : 128 ≤ offset) (hm : 0 < m) (hsum : offset + m ≤ 256) :
    128 ≤ (UInt8.ofNat (x % m + offset)).toNat := by
  have hlt := Nat.mod_lt x hm
  rw [UInt8.toNat_ofNat']
  omega

/-- A byte below 128 is the character itself. -/
theorem utf8_char (c : Char) (b : UInt8) (hb : b ∈ String.utf8EncodeChar c)
    (hlow : b.toNat < 128) : c.toNat = b.toNat := by
  unfold String.utf8EncodeChar at hb
  dsimp only at hb
  split at hb
  · rw [List.mem_singleton] at hb
    subst hb
    rw [UInt8.toNat_ofNat', Char.toNat]
    omega
  · have hmarked : 128 ≤ b.toNat := by
      split at hb
      · simp only [List.mem_cons, List.not_mem_nil, or_false] at hb
        rcases hb with rfl | rfl <;> exact marked _ _ _ (by decide) (by decide) (by decide)
      · split at hb
        · simp only [List.mem_cons, List.not_mem_nil, or_false] at hb
          rcases hb with rfl | rfl | rfl <;> exact marked _ _ _ (by decide) (by decide) (by decide)
        · simp only [List.mem_cons, List.not_mem_nil, or_false] at hb
          rcases hb with rfl | rfl | rfl | rfl <;>
            exact marked _ _ _ (by decide) (by decide) (by decide)
    omega

/-- No line ends within it. -/
def Unbroken (s : Str) : Prop := ∀ c ∈ s, c ≠ '\n' ∧ c ≠ '\r'

instance (s : Str) : Decidable (Unbroken s) :=
  inferInstanceAs (Decidable (∀ c ∈ s, c ≠ '\n' ∧ c ≠ '\r'))

theorem utf8_one_line (s : Str) (h : Unbroken s) : OneLine bytes (utf8 s) := by
  intro b hb
  obtain ⟨c, hc, hbc⟩ := List.mem_flatMap.mp hb
  constructor
  · rintro rfl
    exact (h c hc).1 (Char.toNat_inj.mp (utf8_char c 10 hbc (by decide)))
  · rintro rfl
    exact (h c hc).2 (Char.toNat_inj.mp (utf8_char c 13 hbc (by decide)))

theorem unbroken_append {s t : Str} (hs : Unbroken s) (ht : Unbroken t) : Unbroken (s ++ t) :=
  fun c hc => (List.mem_append.mp hc).elim (hs c) (ht c)

theorem unbroken_cons {c : Char} {s : Str} (hc : c ≠ '\n' ∧ c ≠ '\r') (hs : Unbroken s) :
    Unbroken (c :: s) :=
  fun d hd => (List.mem_cons.mp hd).elim (fun h => h ▸ hc) (hs d)

theorem unbroken_nil : Unbroken [] := fun _ hc => absurd hc List.not_mem_nil

theorem frame_bytes (f : Frame) : utf8 (frame_text f) = frame bytes (utf8 (payload f)) := by
  have hname : utf8 "data: ".toList = bytes.data ++ [bytes.colon, bytes.space] := by decide
  have hblank : utf8 "\n\n".toList = [bytes.lf, bytes.lf] := by decide
  calc utf8 (frame_text f)
      = utf8 ("data: ".toList ++ payload f) ++ utf8 "\n\n".toList := utf8_append _ _
    _ = utf8 "data: ".toList ++ utf8 (payload f) ++ utf8 "\n\n".toList :=
      congrArg (· ++ utf8 "\n\n".toList) (utf8_append _ _)
    _ = bytes.data ++ [bytes.colon, bytes.space] ++ utf8 (payload f) ++ [bytes.lf, bytes.lf] :=
      congrArg₂ (fun name blank => name ++ utf8 (payload f) ++ blank) hname hblank
    _ = frame bytes (utf8 (payload f)) :=
      congrArg (· ++ [bytes.lf, bytes.lf]) (List.append_assoc _ _ _)

/-! ## What is printed has no line breaks -/

theorem unbroken_join {sep : Str} (hsep : Unbroken sep) (parts : List Str)
    (h : ∀ p ∈ parts, Unbroken p) : Unbroken (join sep parts) := by
  induction parts with
  | nil => exact unbroken_nil
  | cons p parts ih =>
    obtain ⟨hp, hrest⟩ := List.forall_mem_cons.mp h
    cases parts with
    | nil => exact hp
    | cons q parts => exact unbroken_append (unbroken_append hp hsep) (ih hrest)

theorem control_unbroken : ∀ n < 0x20, ∀ c ∈ unicodeEscape n, c ≠ '\n' ∧ c ≠ '\r' := by decide

theorem escape_unbroken (c : Char) : Unbroken (escape false c) := by
  unfold escape
  by_cases hbreak : c = '\n' ∨ c = '\r'
  · rcases hbreak with rfl | rfl <;> decide
  · obtain ⟨hn, hr⟩ := not_or.mp hbreak
    repeat' split
    any_goals decide
    · next hcontrol => exact control_unbroken _ (by simpa using hcontrol)
    · exact unbroken_cons ⟨hn, hr⟩ unbroken_nil

theorem quote_unbroken (s : Str) : Unbroken (quote false s) := by
  apply unbroken_cons ⟨by decide, by decide⟩
  apply unbroken_append
  · intro c hc
    obtain ⟨d, _, hcd⟩ := List.mem_flatMap.mp hc
    exact escape_unbroken d c hcd
  · exact unbroken_cons ⟨by decide, by decide⟩ unbroken_nil

theorem digit_unbroken (s : Str) (h : ∀ c ∈ s, c.isDigit = true) : Unbroken s := by
  intro c hc
  constructor
  · rintro rfl
    exact absurd (h _ hc) (by decide)
  · rintro rfl
    exact absurd (h _ hc) (by decide)

theorem natural_unbroken (n level : ℕ) : Unbroken (render false compact level (.int n)) :=
  digit_unbroken _ (strNat_digits n)

theorem optional_unbroken (o : Option Str) (level : ℕ) :
    Unbroken (render false compact level (optional o)) := by
  cases o with
  | none => exact (by decide : Unbroken "null".toList)
  | some text => exact quote_unbroken text

theorem enclose_unbroken (level : ℕ) (opening closing : Char) (parts : List Str)
    (ho : opening ≠ '\n' ∧ opening ≠ '\r') (hc : closing ≠ '\n' ∧ closing ≠ '\r')
    (h : ∀ p ∈ parts, Unbroken p) : Unbroken (compact.enclose level opening closing parts) := by
  unfold Layout.enclose
  split
  · exact unbroken_cons ho (unbroken_cons hc unbroken_nil)
  · apply unbroken_cons ho
    apply unbroken_append unbroken_nil
    apply unbroken_append
    · exact unbroken_join (unbroken_cons ⟨by decide, by decide⟩ unbroken_nil) parts h
    · exact unbroken_append unbroken_nil (unbroken_cons hc unbroken_nil)

theorem object_unbroken (level : ℕ) (pairs : List (Str × Json))
    (h : ∀ kv ∈ pairs, Unbroken (render false compact (level + 1) kv.2)) :
    Unbroken (render false compact level (.obj pairs)) := by
  apply enclose_unbroken _ _ _ _ ⟨by decide, by decide⟩ ⟨by decide, by decide⟩
  induction pairs with
  | nil => exact fun p hp => absurd hp List.not_mem_nil
  | cons kv pairs ih =>
    obtain ⟨hkv, hrest⟩ := List.forall_mem_cons.mp h
    have hpart : Unbroken (quote false kv.1 ++ (compact.colon ++
        render false compact (level + 1) kv.2)) :=
      unbroken_append (quote_unbroken kv.1)
        (unbroken_append (unbroken_cons ⟨by decide, by decide⟩ unbroken_nil) hkv)
    exact List.forall_mem_cons.mpr ⟨hpart, ih hrest⟩

theorem array_unbroken (level : ℕ) (items : List Json)
    (h : ∀ x ∈ items, Unbroken (render false compact (level + 1) x)) :
    Unbroken (render false compact level (.arr items)) := by
  apply enclose_unbroken _ _ _ _ ⟨by decide, by decide⟩ ⟨by decide, by decide⟩
  induction items with
  | nil => exact fun p hp => absurd hp List.not_mem_nil
  | cons x items ih =>
    obtain ⟨hx, hrest⟩ := List.forall_mem_cons.mp h
    exact List.forall_mem_cons.mpr ⟨hx, ih hrest⟩

theorem chunk_unbroken (c : ChatCompletionChunk) : Unbroken (model_dump_json c) := by
  apply object_unbroken
  simp only [List.forall_mem_cons]
  refine ⟨quote_unbroken _, quote_unbroken _, natural_unbroken _ _, quote_unbroken _, ?_,
    fun kv hkv => absurd hkv List.not_mem_nil⟩
  apply array_unbroken
  intro x hx
  obtain ⟨choice, _, rfl⟩ := List.mem_map.mp hx
  apply object_unbroken
  simp only [List.forall_mem_cons]
  refine ⟨natural_unbroken _ _, ?_, optional_unbroken _ _,
    fun kv hkv => absurd hkv List.not_mem_nil⟩
  apply object_unbroken
  simp only [List.forall_mem_cons]
  exact ⟨optional_unbroken _ _, optional_unbroken _ _,
    fun kv hkv => absurd hkv List.not_mem_nil⟩

/-! ## Reading a body -/

/-- The clock reading can be read back. -/
def Dated : Frame → Prop
  | .data chunk => DigitLimit chunk.created ∧ ∀ choice ∈ chunk.choices, DigitLimit choice.index
  | .DONE => True


theorem payload_unbroken (f : Frame) : Unbroken (payload f) := by
  cases f with
  | data chunk => exact chunk_unbroken chunk
  | DONE => exact (by decide : Unbroken "[DONE]".toList)

theorem optional_sound (py : Runtime) (o : Option Str) : Sound py (optional o) := by
  cases o <;> trivial

theorem choices_sound (py : Runtime) (choices : List ChunkChoice)
    (h : ∀ choice ∈ choices, DigitLimit choice.index) :
    SoundItems py (choices.map choice_json) := by
  induction choices with
  | nil => trivial
  | cons choice choices ih =>
    obtain ⟨hchoice, hrest⟩ := List.forall_mem_cons.mp h
    have hdelta : Sound py (delta_json choice.delta) :=
      ⟨(by decide : ["role".toList, "content".toList].Nodup), optional_sound py _,
        optional_sound py _, trivial⟩
    have hkeys : ["index".toList, "delta".toList, "finish_reason".toList].Nodup := by decide
    exact ⟨⟨hkeys, hchoice, hdelta, optional_sound py _, trivial⟩, ih hrest⟩

theorem chunk_sound (py : Runtime) (c : ChatCompletionChunk) (h : Dated (.data c)) :
    Sound py (chunk_json c) := by
  have hkeys : ["id".toList, "object".toList, "created".toList, "model".toList,
      "choices".toList].Nodup := by decide
  exact ⟨hkeys, trivial, trivial, h.1, trivial, choices_sound py c.choices h.2, trivial⟩

theorem payload_read (py : Runtime) (f : Frame) (h : Dated f) :
    frame_of py (utf8 (payload f)) = some f := by
  unfold frame_of
  rw [decode_utf8]
  cases f with
  | DONE => rfl
  | data c =>
    have hne : model_dump_json c ≠ "[DONE]".toList := by
      intro heq
      have hhead : some '\x7b' = some '[' := congrArg List.head? heq
      exact absurd hhead (by decide)
    have hloads : loads py (model_dump_json c) = .ok (chunk_json c) :=
      loads_render py false compact (chunk_json c) (chunk_sound py c h)
    show (if model_dump_json c = "[DONE]".toList then some Frame.DONE
      else match loads py (model_dump_json c) with
        | .ok value => (chunk_of value).map Frame.data
        | .error _ => none) = _
    rw [if_neg hne, hloads]
    dsimp only
    rw [chunk_read]
    rfl

theorem body_frames (frames : List Frame) :
    body frames = (frames.map (utf8 ∘ payload)).flatMap (frame bytes) := by
  induction frames with
  | nil => rfl
  | cons f frames ih =>
    rw [List.map_cons, List.flatMap_cons, ← ih, body, List.flatMap_cons, utf8_append, frame_bytes]
    rfl

theorem payloads_one_line (frames : List Frame) :
    ∀ p ∈ frames.map (utf8 ∘ payload), OneLine bytes p := by
  intro p hp
  obtain ⟨f, _, rfl⟩ := List.mem_map.mp hp
  exact utf8_one_line _ (payload_unbroken f)

theorem payloads_read (py : Runtime) (frames : List Frame) (h : ∀ f ∈ frames, Dated f) :
    (frames.map (utf8 ∘ payload)).mapM (frame_of py) = some frames := by
  induction frames with
  | nil => rfl
  | cons f frames ih =>
    obtain ⟨hf, hrest⟩ := List.forall_mem_cons.mp h
    rw [List.map_cons, List.mapM_cons, Function.comp_apply, payload_read py f hf, ih hrest]
    rfl

/-- The body may be cut anywhere, within a character too. -/
theorem client_reads_body (py : Runtime) (frames : List Frame) (h : ∀ f ∈ frames, Dated f)
    (pieces : List (List UInt8)) (hpieces : pieces.flatten = body frames) :
    client py pieces = some frames := by
  rw [client, events_of_frames bytes _ pieces (payloads_one_line frames)
    (by rw [hpieces, body_frames])]
  exact payloads_read py frames h

/-- A body that is lost from some byte on is read up to a frame. -/
theorem client_reads_front (py : Runtime) (frames : List Frame) (h : ∀ f ∈ frames, Dated f)
    (pieces : List (List UInt8)) (hpieces : pieces.flatten <+: body frames) :
    ∃ front, front <+: frames ∧ client py pieces = some front := by
  have hevents := events_of_prefix bytes _ pieces (payloads_one_line frames)
    (by rwa [← body_frames])
  obtain ⟨n, hn⟩ : ∃ n, events bytes pieces = (frames.map (utf8 ∘ payload)).take n :=
    ⟨_, (List.prefix_iff_eq_take.mp hevents)⟩
  refine ⟨frames.take n, List.take_prefix n frames, ?_⟩
  rw [client, hn, ← List.map_take]
  exact payloads_read py _ (fun f hf => h f (List.mem_of_mem_take hf))

/-! ## The bodies of the service -/

section Encoder
variable (c : Completion) (style : Str)

/-- All frames carry the time and the index of their stream. -/
def Stamped : Frame → Prop
  | .data chunk => chunk.created = c.created ∧ ∀ choice ∈ chunk.choices, choice.index = 0
  | .DONE => True

theorem stamped_dated (hcreated : DigitLimit c.created) (f : Frame) (h : Stamped c f) :
    Dated f := by
  cases f with
  | DONE => trivial
  | data chunk =>
    constructor
    · rw [h.1]
      exact hcreated
    · intro choice hchoice
      rw [h.2 choice hchoice]
      exact (by decide : (strNat 0).length ≤ 4300)

theorem chunk_stamped (choice : ChunkChoice) (h : choice.index = 0) :
    Stamped c (chunk c choice) :=
  ⟨rfl, fun _ hother => List.mem_singleton.mp hother ▸ h⟩

theorem closing_stamped (d : Details) : ∀ f ∈ closing c style d, Stamped c f := by
  unfold closing
  split
  · exact fun f hf => List.mem_singleton.mp hf ▸ chunk_stamped c _ rfl
  · exact fun f hf => absurd hf List.not_mem_nil

theorem opening_stamped (d : Details) : ∀ f ∈ opening c style d, Stamped c f := by
  unfold opening
  split
  · exact fun f hf => absurd hf List.not_mem_nil
  · exact fun f hf => List.mem_singleton.mp hf ▸ chunk_stamped c _ rfl

theorem finish_stamped (reason : Str) : ∀ f ∈ [finish c reason, .DONE], Stamped c f :=
  List.forall_mem_cons.mpr ⟨chunk_stamped c _ rfl, List.forall_mem_cons.mpr
    ⟨trivial, fun _ hf => absurd hf List.not_mem_nil⟩⟩

theorem encode_stamped (ended : Except Exn Unit) (events : List StepEvent) (d : Details) :
    ∀ f ∈ (encode c style ended d events).1, Stamped c f := by
  induction events generalizing d with
  | nil =>
    cases ended with
    | ok _ =>
      exact List.forall_mem_append.mpr ⟨closing_stamped c style d, finish_stamped c _⟩
    | error exc => exact fun f hf => absurd hf List.not_mem_nil
  | cons event events ih =>
    have htrace : ∀ e : StepEvent, encode c style ended d (event :: events) =
        (if TRACE_OFF style then encode c style ended d events
        else
          let out := encode c style ended { d with opened := true } events
          (opening c style d ++ make_chunk c ((trace_line e).getD []) :: out.1, out.2)) →
        ∀ f ∈ (encode c style ended d (event :: events)).1, Stamped c f := by
      intro e heq
      rw [heq]
      split
      · exact ih d
      · exact List.forall_mem_append.mpr ⟨opening_stamped c style d,
          List.forall_mem_cons.mpr ⟨chunk_stamped c _ rfl, ih _⟩⟩
    cases event with
    | StepFinalChunk text =>
      exact List.forall_mem_append.mpr ⟨closing_stamped c style d,
        List.forall_mem_cons.mpr ⟨chunk_stamped c _ rfl, ih _⟩⟩
    | StepDone reason =>
      exact List.forall_mem_append.mpr ⟨closing_stamped c style d, finish_stamped c _⟩
    | _ => exact htrace _ rfl

/-- Whatever a run streams and however it ends, a client that is handed the bytes
piece by piece reads the frames sent, and of a body cut short the first of them. -/
theorem agentic_body_read (py : Runtime) (events : List StepEvent) (ended : Except Exn Unit)
    (hcreated : DigitLimit c.created) (pieces : List (List UInt8)) :
    (pieces.flatten = body (sse_stream_agentic c style events ended).1 →
      client py pieces = some (sse_stream_agentic c style events ended).1) ∧
    (pieces.flatten <+: body (sse_stream_agentic c style events ended).1 →
      ∃ front, front <+: (sse_stream_agentic c style events ended).1 ∧
        client py pieces = some front) := by
  have hdated : ∀ f ∈ (sse_stream_agentic c style events ended).1, Dated f := by
    intro f hf
    apply stamped_dated c hcreated
    rcases List.mem_cons.mp hf with rfl | hrest
    · exact chunk_stamped c _ rfl
    · exact encode_stamped c style ended events _ f hrest
  constructor
  · exact client_reads_body py _ hdated pieces
  · exact client_reads_front py _ hdated pieces

end Encoder

def january : Completion :=
  ⟨"chatcmpl-0123456789abcdef01234567".toList, 1767225600, "aigent-squad".toList⟩

theorem january_limit : DigitLimit january.created :=
  (by decide +kernel : (strNat 1767225600).length ≤ 4300)

/-- A trace of two lines, an answer with an accent. -/
def accented : List Frame :=
  (sse_stream_agentic january "think".toList [.StepThinking "looking\nup".toList,
    .StepFinalChunk "é".toList, .StepDone "stop".toList] (.ok ())).1

/-- Byte by byte, and cut off after 300 bytes. -/
theorem agentic_body_read_accented :
    client asciiRuntime ((body accented).map (fun b => [b])) = some accented ∧
    ∃ front, front <+: accented ∧
      client asciiRuntime [(body accented).take 300] = some front := by
  constructor
  · exact (agentic_body_read january "think".toList asciiRuntime _ (.ok ()) january_limit
      ((body accented).map (fun b => [b]))).1 (List.flatMap_singleton' _)
  · exact (agentic_body_read january "think".toList asciiRuntime _ (.ok ()) january_limit
      [(body accented).take 300]).2 (by
        rw [List.flatten_singleton]
        exact List.take_prefix _ _)

end AigentSquad.ChatFrames
