import LanguageClient.Proofs.Client.Registrations

/-!
# The history of a registry

After the handshake a server registers capabilities and takes them back, in
batches, any number of times. What is then in the registry can be read off the
history: the registrations of the handshake, followed by those that were asked
for and that no later batch named (`standing`). Ids need not differ, so one
batch may take back many registrations; one that names the id of the handshake
takes back only what was registered dynamically under it.

The first registration that covers a document counts, and new ones go to the
end. So registering gives options only where there were none
(`options?_register_of_some`), and taking back never does
(`options?_unregister_of_none`).

* `run_eq`: the registry after any history.
* `history_law`: what this says about the options of every method and document.
-/
namespace LanguageClient

/-- What a server does to its registrations in one go. -/
inductive RegistryBatch where
  | register (requests : List RegistrationRequest)
  | unregister (requests : List UnregistrationRequest)
  deriving DecidableEq, Repr, Inhabited

namespace RegistryBatch

/-- Whether a batch takes a registration back, if it was registered dynamically. -/
def revokes (r : Registration) : RegistryBatch → Bool
  | register _ => false
  | unregister requests => requests.any (·.names r)

/-- What a batch asks for. -/
def requests : RegistryBatch → List RegistrationRequest
  | register requests => requests
  | unregister _ => []

end RegistryBatch

namespace Registry

/-! ## Runs of batches -/

def apply (reg : Registry) : RegistryBatch → Registry
  | .register requests => reg.register requests
  | .unregister requests => reg.unregister requests

def run (reg : Registry) (batches : List RegistryBatch) : Registry :=
  batches.foldl apply reg

/-- What some batches leave registered: all that was asked for and that no later batch takes back,
in the order of its coming. -/
def standing : List RegistryBatch → List Registration
  | [] => []
  | batch :: later =>
    (batch.requests.map granted).filter (fun r => !later.any (·.revokes r)) ++ standing later

theorem run_append (reg : Registry) (earlier later : List RegistryBatch) :
    reg.run (earlier ++ later) = (reg.run earlier).run later :=
  List.foldl_append

/-- **A step.** A batch keeps of a registry what the handshake gave and what it does not take back,
and adds what it asks for. -/
theorem apply_registrations (reg : Registry) (batch : RegistryBatch) :
    (reg.apply batch).registrations = reg.registrations.filter
      (fun r => r.source = .handshake || !batch.revokes r) ++ batch.requests.map granted := by
  cases batch with
  | register requests =>
    have hkept : reg.registrations.filter (fun r => r.source = .handshake ||
        !(RegistryBatch.register requests).revokes r) = reg.registrations :=
      List.filter_eq_self.2 fun r _ => by simp [RegistryBatch.revokes]
    rw [hkept]
    rfl
  | unregister requests => exact (List.append_nil _).symm

/-- What is granted by a batch does not come from the handshake, so later batches may take it
back. -/
theorem filter_granted (requests : List RegistrationRequest) (later : List RegistryBatch) :
    (requests.map granted).filter (fun r => r.source = .handshake || !later.any (·.revokes r)) =
      (requests.map granted).filter fun r => !later.any (·.revokes r) := by
  refine List.filter_congr fun r hr => ?_
  obtain ⟨q, -, rfl⟩ := List.mem_map.1 hr
  rfl

/-- **A run.** Some batches keep of a registry what the handshake gave and what none of them takes
back, and add what stands. -/
theorem run_registrations (batches : List RegistryBatch) :
    ∀ reg : Registry, (reg.run batches).registrations = reg.registrations.filter
      (fun r => r.source = .handshake || !batches.any (·.revokes r)) ++ standing batches := by
  induction batches with
  | nil =>
    intro reg
    have hkept : reg.registrations.filter (fun r => r.source = .handshake ||
        !List.any [] (RegistryBatch.revokes r)) = reg.registrations :=
      List.filter_eq_self.2 fun r _ => by simp
    rw [hkept]
    exact (List.append_nil _).symm
  | cons batch later ih =>
    intro reg
    have hboth : ∀ r : Registration, ((r.source = .handshake || !later.any (·.revokes r)) &&
        (r.source = .handshake || !batch.revokes r)) =
          (r.source = .handshake || !(batch :: later).any (·.revokes r)) := by
      intro r
      rw [List.any_cons, Bool.not_or, Bool.and_comm, Bool.or_and_distrib_left]
    calc (reg.run (batch :: later)).registrations
        = (reg.apply batch).registrations.filter
            (fun r => r.source = .handshake || !later.any (·.revokes r)) ++ standing later := ih _
      _ = _ := by
        rw [apply_registrations, List.filter_append, List.filter_filter, filter_granted,
          List.append_assoc, ← standing]
        simp only [hboth]

theorem source_of_mem_standing {batches : List RegistryBatch} {r : Registration}
    (hr : r ∈ standing batches) : r.source = .dynamic := by
  induction batches with
  | nil => cases hr
  | cons batch later ih =>
    rcases List.mem_append.1 hr with h | h
    · obtain ⟨q, -, rfl⟩ := List.mem_map.1 (List.mem_filter.1 h).1
      rfl
    · exact ih h

/-- Nothing stands if each request is taken back by a batch that comes later. -/
theorem standing_eq_nil {batches : List RegistryBatch}
    (hall : ∀ earlier batch later, batches = earlier ++ batch :: later →
      ∀ q ∈ batch.requests, later.any (·.revokes (granted q)) = true) : standing batches = [] := by
  induction batches with
  | nil => rfl
  | cons batch later ih =>
    rw [standing, ih fun earlier b l he => hall (batch :: earlier) b l (by rw [he]; rfl),
      List.append_nil, List.filter_eq_nil_iff]
    intro r hr
    obtain ⟨q, hq, rfl⟩ := List.mem_map.1 hr
    simp [hall [] batch later rfl q hq]

/-! ## After the handshake -/

/-- The registry after any history is what the handshake gave, followed by what stands. -/
theorem run_ofHandshake (capabilities : Json) (languageIds : List String)
    (batches : List RegistryBatch) :
    ((ofHandshake capabilities languageIds).run batches).registrations =
      (ofHandshake capabilities languageIds).registrations ++ standing batches := by
  rw [run_registrations]
  congr 1
  refine List.filter_eq_self.2 fun r hr => ?_
  rw [source_of_mem_ofHandshake hr]
  rfl

/-! ## Options -/

/-- What has options keeps them when more is registered, since the first registration counts. -/
theorem options?_register_of_some {reg : Registry} {method languageId : String}
    {path : Option String} {options : Json}
    (h : reg.options? method languageId path = some options)
    (requests : List RegistrationRequest) :
    (reg.register requests).options? method languageId path = some options := by
  obtain ⟨r, hr, ho⟩ := Option.map_eq_some_iff.1 h
  simp only [options?, register, List.find?_append, hr, Option.some_or, Option.map_some, ho]

/-- What has no options gets none by taking back. -/
theorem options?_unregister_of_none {reg : Registry} {method languageId : String}
    {path : Option String} (h : reg.options? method languageId path = none)
    (requests : List UnregistrationRequest) :
    (reg.unregister requests).options? method languageId path = none := by
  simp only [options?, Option.map_eq_none_iff, List.find?_eq_none] at h ⊢
  exact fun r hr => h r ((List.mem_filter.1 hr).1)

/-- **The history of a registry.** After any batches the registrations of the handshake stand
unchanged at the front, followed by the dynamic ones in the order of their coming, less those that
a later batch named. Registering changes no options that were there, and taking back brings none.
Once each request has been named by a later batch, the options are those of the handshake again
for every method and document, whatever the ids. -/
theorem history_law (capabilities : Json) (languageIds : List String)
    (batches : List RegistryBatch) :
    let initial := ofHandshake capabilities languageIds
    let reg := initial.run batches
    (reg.registrations = initial.registrations ++ standing batches ∧
        (∀ r ∈ initial.registrations, r.source = .handshake) ∧
        ∀ r ∈ standing batches, r.source = .dynamic) ∧
      (∀ requests method languageId path options,
        reg.options? method languageId path = some options →
          (reg.register requests).options? method languageId path = some options) ∧
      (∀ requests method languageId path, reg.options? method languageId path = none →
        (reg.unregister requests).options? method languageId path = none) ∧
      ((∀ earlier batch later, batches = earlier ++ batch :: later →
          ∀ q ∈ batch.requests, later.any (·.revokes (granted q)) = true) →
        ∀ method languageId path,
          reg.options? method languageId path = initial.options? method languageId path) := by
  intro initial reg
  have hrun : reg.registrations = initial.registrations ++ standing batches :=
    run_ofHandshake capabilities languageIds batches
  refine ⟨⟨hrun, fun r => source_of_mem_ofHandshake, fun r => source_of_mem_standing⟩,
    fun requests _ _ _ _ h => options?_register_of_some h requests,
    fun requests _ _ _ h => options?_unregister_of_none h requests, fun hall _ _ _ => ?_⟩
  have hinitial : reg.registrations = initial.registrations := by
    rw [hrun, standing_eq_nil hall, List.append_nil]
  rw [options?, options?, hinitial]

/-- Taking back what was registered under the id of the handshake leaves the handshake's own. -/
example :
    let initial := ofHandshake (.obj [("hoverProvider", .bool true)]) ["rust"]
    initial.run [.register [⟨handshakeId, Method.hover, none⟩],
      .unregister [⟨handshakeId, Method.hover⟩]] = initial := by
  decide +kernel

end Registry

end LanguageClient
