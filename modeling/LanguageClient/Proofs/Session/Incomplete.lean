import LanguageClient.Proofs.Json.Members
import LanguageClient.Proofs.Session.Gate

/-!
# Incomplete completion answers

A server marks a completion list as incomplete when there is more than it
lists; such a list must not serve again (`CompletionCache.canReuse`). The mark
is lost when an item of the list cannot be read: the whole list then counts
as an empty one that is complete (`Answers.isIncomplete_completionList`), and
serves in place of the request that would bring the rest.

* `pump_completion`: what a pump keeps of the last completion result.
* `cache_of_unanswered`: while no other result comes, nothing else is kept.
* `run_incomplete`: an incomplete list never serves, exactly if its items can
  be read.
-/
namespace LanguageClient

/-! ## The mark of a list -/

namespace Answers

/-- Whether the items that a result lists can be read; a result that lists none has them all. -/
def ListsItems (result : Json) : Prop :=
  ∀ items, result.get? "items" = some items →
    ∃ read, Decoder.list CompletionItem.decode items = .ok read

theorem get?_items (members : List (String × Json)) :
    Keyed.get? "items" (Keyed.erase "isIncomplete" members) = (Json.obj members).get? "items" :=
  Keyed.get?_erase_of_ne members (by decide)

/-- The items of a list are read exactly if they can be. -/
theorem listsItems_iff (members : List (String × Json)) :
    ListsItems (.obj members) ↔ ∃ items, Fields.taken? "items"
      (Decoder.list CompletionItem.decode) (some []) (Keyed.erase "isIncomplete" members) =
        some items := by
  unfold ListsItems Fields.taken?
  rw [get?_items]
  cases (Json.obj members).get? "items" with
  | none => simp
  | some items => cases h : Decoder.list CompletionItem.decode items <;> simp [h, Except.toOption]

/-- A list that is marked as incomplete is taken for one exactly if its items can be read. -/
theorem isIncomplete_completionList {members : List (String × Json)}
    (hn : (Keyed.names members).Nodup)
    (hmark : (Json.obj members).get? "isIncomplete" = some (.bool true)) :
    (completionList (.obj members)).isIncomplete = true ↔ ListsItems (.obj members) := by
  have htaken : Fields.taken? "isIncomplete" Decoder.bool (some false) members = some true := by
    rw [Fields.taken?, show Keyed.get? "isIncomplete" members = some (.bool true) from hmark]
    rfl
  have hread : ∀ mark items, CompletionList.fields.read "CompletionList" (.obj members) =
      .ok (mark, items, ()) ↔ mark = true ∧ Fields.taken? "items"
        (Decoder.list CompletionItem.decode) (some []) (Keyed.erase "isIncomplete" members) =
          some items := by
    intro mark items
    rw [CompletionList.fields, Fields.defaulted, Fields.read_field_iff hn, htaken,
      Fields.defaulted, Fields.read_field_iff (Fields.nodup_erase hn _)]
    constructor
    · rintro ⟨⟨⟩, hitems, -⟩
      exact ⟨rfl, hitems⟩
    · rintro ⟨rfl, hitems⟩
      exact ⟨rfl, hitems, Fields.read_done _ _⟩
  rw [completionList, CompletionList.decode, listsItems_iff]
  cases hlist : CompletionList.fields.read "CompletionList" (.obj members) with
  | error e =>
    refine iff_of_false (by simp [decodedOr, CompletionList.empty]) ?_
    rintro ⟨items, hitems⟩
    rw [(hread true items).2 ⟨rfl, hitems⟩] at hlist
    cases hlist
  | ok list =>
    obtain ⟨mark, items, ⟨⟩⟩ := list
    obtain ⟨rfl, hitems⟩ := (hread mark items).1 hlist
    exact iff_of_true rfl ⟨items, hitems⟩

end Answers

/-! ## What is kept of a result -/

namespace Session

variable {s : Session} {body : List UInt8} {rid : RequestId} {result : Json} {id : Int}
  {context : RequestContext}

/-- What a session keeps of a completion result. -/
def kept (s : Session) (id : Int) (context : RequestContext) (result : Json) : CompletionCache :=
  .ofList (.number id) context.uri context.position context.linePrefix
    (Answers.completionList result) s.completion.words

theorem onBodies_append (visible : String → Bool) (bodies more : List (List UInt8)) :
    ∀ s : Session, (onBodies visible (bodies ++ more) s).2 =
      (onBodies visible more (onBodies visible bodies s).2).2 := by
  induction bodies with
  | nil => exact fun _ => rfl
  | cons body bodies ih => exact fun s => ih _

/-- A body that answers a completion request fills the cache. -/
theorem cache_onBody (hbody : Incoming.decode body = .ok (.response rid (.ok result)))
    (hid : s.client.completes? body = some (id, context)) (visible : String → Bool) :
    (s.onBody visible body).2.cache = some (s.kept id context result) := by
  simp only [Client.completes?, hbody] at hid
  obtain ⟨p, hp, hid⟩ := Option.bind_eq_some_iff.1 hid
  split at hid <;> rename_i hm
  · obtain ⟨context', hcontext, he⟩ := Option.map_eq_some_iff.1 hid
    cases he
    have hevents : (s.client.receive body).1 =
        [.response p.id p.method result (some context)] := by
      rw [Client.receive_of_response hbody, Client.onResponse_of_some _ hp]
      have hstart : p.method ≠ Method.start := by rw [hm]; decide
      have hshutdown : p.method ≠ Method.shutdown := by rw [hm]; decide
      rcases (s.client.without p).settle_cases p (.ok result) with
        ⟨_, h, -, -⟩ | ⟨_, h, -, -⟩ | ⟨h, -⟩ | ⟨_, -, -, he, h⟩ | ⟨_, -, -, he, -⟩
      · exact absurd h hstart
      · exact absurd h hstart
      · exact absurd h hshutdown
      · cases he
        rw [h, hcontext]
      · cases he
    simp only [onBody, hevents, onEvents, onEvent, onAnswer, if_pos hm]
    rfl
  · cases hid

/-- The cache after bodies of which one answers a completion request and none behind it does. -/
theorem cache_onBodies {pre post : List (List UInt8)}
    (hbody : Incoming.decode body = .ok (.response rid (.ok result)))
    (hid : (s.client.receiveAll pre).completes? body = some (id, context))
    (hpost : (s.client.receiveAll (pre ++ [body])).completions post = [])
    (visible : String → Bool) :
    (onBodies visible (pre ++ body :: post) s).2.cache = some (s.kept id context result) := by
  have hpre := hears_onBodies visible pre s
  have hfirst := hears_onBody (onBodies visible pre s).2 visible body
  rw [onBodies_append]
  have hclient : ((onBodies visible pre s).2.onBody visible body).2.client =
      s.client.receiveAll (pre ++ [body]) := by
    rw [hfirst.client, hpre.client]
    simp [Client.receiveAll]
  have hlast := caches_onBodies visible post ((onBodies visible pre s).2.onBody visible body).2
  rw [hclient, hpost] at hlast
  rcases hlast with ⟨-, hcache⟩ | ⟨before, _, _, _, he, -⟩
  · rw [onBodies, hcache, cache_onBody hbody (by rwa [hpre.client]), kept, kept,
      hpre.completion]
  · simp at he

/-- What a pump keeps of the completion result that it takes in last; a session that is torn down
keeps nothing. -/
theorem pump_completion {pre post : List (List UInt8)} (harrive : s.arrivals = pre ++ body :: post)
    (hbody : Incoming.decode body = .ok (.response rid (.ok result)))
    (hid : (s.client.receiveAll pre).completes? body = some (id, context))
    (hpost : (s.client.receiveAll (pre ++ [body])).completions post = [])
    (visible : String → Bool) (now : Nat) :
    ((s.pump visible now).2.2.tornDown = true ∧ (s.pump visible now).2.2.cache = none) ∨
      ((s.pump visible now).2.2.tornDown = false ∧
        (s.pump visible now).2.2.cache = some (s.kept id context result)) := by
  have hs : s.tornDown = false := by
    by_contra h
    rw [Bool.not_eq_false] at h
    simp [arrivals, h] at harrive
  have htaken : (s.taken visible).2.cache = some (s.kept id context result) := by
    rw [taken, harrive]
    exact cache_onBodies hbody hid hpost visible
  obtain ⟨t, hunheard, ht, he | ⟨name, he⟩⟩ := pump_cases hs visible now
  · rw [he]
    exact .inr ⟨ht, hunheard.cache.trans htaken⟩
  · rw [he]
    exact .inl ⟨rfl, (t.tearDown_heard now).2.1⟩

/-! ## What serves -/

theorem stripPrefix?_self (p : List Char) : CompletionCache.stripPrefix? p p = some [] := by
  induction p with
  | nil => rfl
  | cons c p ih => rw [CompletionCache.stripPrefix?, if_pos rfl, ih]

/-- An answer that is complete serves at the place that it was asked for. -/
theorem canReuse_origin {c : CompletionCache} (hc : c.isIncomplete = false) (words : WordSet) :
    c.canReuse c.uri c.origin c.originPrefix words = true := by
  simp [CompletionCache.canReuse, hc, stripPrefix?_self, WordSet.allWord]

/-- A complete answer that is kept serves somebody. -/
theorem exists_cached {c : CompletionCache} (hc : s.cache = some c)
    (hcomplete : c.isIncomplete = false) :
    ∃ d text q now items, (s.ask d text q now).1 = .ok (.cached items) := by
  let d := Document.new c.uri none "" ""
  have hserves : s.cached? d (.completion c.origin c.originPrefix) =
      some (c.refilter c.originPrefix s.completion.words) := by
    simp [cached?, hc, d, Document.new, canReuse_origin hcomplete]
  exact ⟨d, "", _, 0, _, by rw [ask_of_cached hserves]⟩

/-- An incomplete answer that is kept serves nobody. -/
theorem ne_cached (h : ∀ c, s.cache = some c → c.isIncomplete = true) (d : Document)
    (text : String) (q : DocumentQuery) (now : Nat) (items : List CompletionItem) :
    (s.ask d text q now).1 ≠ .ok (.cached items) := by
  intro hserves
  have hnone : s.cached? d q = none := by
    rw [Option.eq_none_iff_forall_not_mem]
    intro served hserved
    obtain ⟨c, _, _, -, hc, hreuse, -⟩ := cached?_cases hserved
    simp [CompletionCache.canReuse, h c hc] at hreuse
  rw [ask_of_not_cached hnone] at hserves
  rcases s.send_cases d text now q with ⟨-, he⟩ | ⟨-, ⟨_, he⟩ | ⟨_, he⟩⟩ <;>
    rw [he] at hserves <;> cases hserves

end Session

/-! ## Runs -/

namespace Desk

theorem run_nil (k : Desk) : k.run [] = k := rfl

/-- While no completion result comes, nothing is kept that was not kept before. -/
theorem cache_of_unanswered {name : String} {k : Desk} (hk : Agrees name k)
    (actions : List DeskAction)
    (hnone : ∀ mid visible time, mid ++ [.pump visible time] <+: actions →
      (k.run mid).session.answered? = none) :
    ∀ {c : CompletionCache}, (k.run actions).session.cache = some c →
      k.session.cache = some c := by
  induction actions using List.reverseRecOn with
  | nil => exact fun hc => hc
  | append_singleton actions action ih =>
    intro c hc
    rw [run_concat] at hc
    rcases cache_step (agrees_run actions hk) action hc with
      ⟨hc, -⟩ | ⟨visible, time, id, context, rfl, ha, -⟩
    · exact ih (fun mid visible time h =>
        hnone mid visible time (h.trans (List.prefix_append _ _))) hc
    · exact absurd ((hnone actions visible time (List.prefix_refl _)).symm.trans ha) (by simp)

/-- **Incomplete answers.** A pump takes in a completion result that is marked as incomplete, and
up to some later time no other completion result comes. Until then the answer never serves, for any
document, place and text, exactly if all the items that it lists can be read, or the pump ends the
session. -/
theorem run_incomplete (name : String) (connection : Connection) (options : ClientOptions)
    (completion : CompletionSettings) (processId now : Nat) (before after : List DeskAction)
    (visible : String → Bool) (time : Nat) {pre post : List (List UInt8)} {body : List UInt8}
    {rid : RequestId} {result : Json}
    (harrive : ((start name connection options completion processId now).run
      before).session.arrivals = pre ++ body :: post)
    (hbody : Incoming.decode body = .ok (.response rid (.ok result)))
    (hmark : result.get? "isIncomplete" = some (.bool true)) :
    let k := start name connection options completion processId now
    let c := (k.run before).session.client
    let since := k.run (before ++ [.pump visible time])
    ∀ id context, (c.receiveAll pre).completes? body = some (id, context) →
      (c.receiveAll (pre ++ [body])).completions post = [] →
      (∀ mid visible' time', mid ++ [.pump visible' time'] <+: after →
        (since.run mid).session.answered? = none) →
      ((∀ mid, mid <+: after → ∀ d text q t items,
          ((since.run mid).session.ask d text q t).1 ≠ .ok (.cached items)) ↔
        Answers.ListsItems result ∨ since.session.tornDown = true) := by
  intro k c since id context hid hpost hnone
  have hsince : Agrees name since := agrees_run _ (agrees_start ..)
  obtain ⟨members, rfl⟩ : ∃ members, result = .obj members := by
    cases result with
    | obj members => exact ⟨members, rfl⟩
    | _ => cases hmark
  have hmarked := Answers.isIncomplete_completionList (Incoming.nodup_of_decode hbody) hmark
  have hpump : since.session = ((k.run before).session.pump visible time).2.2 := by
    simp only [since, run_concat]
    rfl
  have hcases := (k.run before).session.pump_completion harrive hbody hid hpost visible time
  rw [← hpump] at hcases
  rcases hcases with ⟨htorn, hc⟩ | ⟨htorn, hc⟩
  · refine iff_of_true (fun mid hmid => Session.ne_cached fun c' hc' => ?_) (.inr htorn)
    have := cache_of_unanswered hsince mid
      (fun mid' v t h => hnone mid' v t (h.trans hmid)) hc'
    rw [hc] at this
    cases this
  · have hkept : ((k.run before).session.kept id context (.obj members)).isIncomplete = true ↔
        Answers.ListsItems (.obj members) := hmarked
    rw [or_iff_left (by rw [htorn]; exact Bool.false_ne_true), ← hkept]
    constructor
    · intro hall
      by_contra hcomplete
      rw [Bool.not_eq_true] at hcomplete
      obtain ⟨d, text, q, t, items, hserves⟩ := Session.exists_cached hc hcomplete
      exact hall [] (List.nil_prefix) d text q t items hserves
    · intro hincomplete mid hmid
      refine Session.ne_cached fun c' hc' => ?_
      have := cache_of_unanswered hsince mid
        (fun mid' v t h => hnone mid' v t (h.trans hmid)) hc'
      rw [hc] at this
      cases this
      exact hincomplete

/-- A completion result that is marked as incomplete and lists some items. -/
def incompleteResult (items : List Json) : Json :=
  .obj [("isIncomplete", .bool true), ("items", .arr items)]

/-- The answer to the first completion request with such a result. -/
def incomplete (items : List Json) : List UInt8 :=
  (Outgoing.reply (.number 2) (.ok (incompleteResult items))).body

/-- A session with a server that completes. -/
def completing : Desk :=
  start "srv" (.opened .reject) ⟨["python"], none, none, .null⟩ .standard 1 0

/-- A completion is asked for, and a body arrives. -/
def asking (body : List UInt8) : List DeskAction :=
  [.between { Connection.opened .reject with inbound := [.frame ⟨[], [], completes⟩] },
    .pump (fun _ => true) 0, .place (.new "file:///a.py" none "python" "fo"),
    .didOpen "file:///a.py" 0, .ask "file:///a.py" "fo" (.completion ⟨0, 2⟩ "fo") 0,
    .between { Connection.opened .reject with inbound := [.frame ⟨[], [], body⟩] }]

/-- The completion request in `asking`. -/
def askedContext : RequestContext :=
  (DocumentQuery.completion ⟨0, 2⟩ "fo").context "file:///a.py"

/-- Items that can be read. -/
def listed : List Json := [.obj [("label", .str "foo")]]

theorem run_incomplete_listed :
    let body := incomplete listed
    let result := incompleteResult listed
    let k := completing.run (asking body)
    let since := completing.run (asking body ++ [.pump (fun _ => true) 0])
    k.session.arrivals = [] ++ body :: [] ∧
      Incoming.decode body = .ok (.response (.number 2) (.ok result)) ∧
      result.get? "isIncomplete" = some (.bool true) ∧
      (k.session.client.receiveAll []).completes? body = some (2, askedContext) ∧
      ∀ d text q t items, (since.session.ask d text q t).1 ≠ .ok (.cached items) := by
  have harrive : (completing.run (asking (incomplete listed))).session.arrivals =
      [] ++ incomplete listed :: [] := by
    decide +kernel
  have hbody : Incoming.decode (incomplete listed) =
      .ok (.response (.number 2) (.ok (incompleteResult listed))) := by
    decide +kernel
  have hmark : (incompleteResult listed).get? "isIncomplete" = some (.bool true) := by
    decide +kernel
  have hid : ((completing.run (asking (incomplete listed))).session.client.receiveAll []
      ).completes? (incomplete listed) = some (2, askedContext) := by
    decide +kernel
  have hitems : Answers.ListsItems (incompleteResult listed) := by
    intro items hitems
    cases hitems
    exact ⟨[⟨"foo", none, none, none, none, none, none, none, [], none⟩], by decide +kernel⟩
  have hnever := run_incomplete "srv" (.opened .reject) ⟨["python"], none, none, .null⟩ .standard
    1 0 (asking (incomplete listed)) [] (fun _ => true) 0 harrive hbody hmark 2 askedContext
  -- the session is named, so that nothing has to be computed to see that the two are the same
  simp only [show start "srv" (.opened .reject) ⟨["python"], none, none, .null⟩ .standard 1 0 =
    completing from rfl] at hnever
  have hserves := (hnever hid rfl (fun mid visible time hmid => by simp at hmid)).2 (.inl hitems)
    [] List.nil_prefix
  rw [run_nil] at hserves
  exact ⟨harrive, hbody, hmark, hid, hserves⟩

/-- One item without a label, and the incomplete result counts as a complete one without items: the
next completion request at the same place is answered by it. -/
theorem incomplete_served :
    let body := incomplete [.obj []]
    let s := (completing.run (asking body)).session
    s.arrivals = [body] ∧
      Incoming.decode body = .ok (.response (.number 2) (.ok (incompleteResult [.obj []]))) ∧
      s.client.completes? body = some (2, askedContext) ∧
      ((completing.run (asking body ++ [.pump (fun _ => true) 0])).session.ask openedFo "fo"
        (.completion ⟨0, 2⟩ "fo") 0).1 = .ok (.cached []) := by
  intro body s
  refine ⟨by decide +kernel, by decide +kernel, by decide +kernel, ?_⟩
  have hserves : (completing.run (asking body ++ [.pump (fun _ => true) 0])).session.cached?
      openedFo (.completion ⟨0, 2⟩ "fo") = some [] := by
    decide +kernel
  rw [Session.ask_of_cached hserves]

end Desk

end LanguageClient
