import Weaver.Proofs.Dispatch.Generation
import Weaver.Proofs.Engine.Records
import Weaver.Proofs.Engine.Transformed

/-!
# Dispatch calls link

A dispatch call is put into a body long before the routine that it calls is generated.  When it is, the
call leads to the body of the routine of its site, and no body is generated that is not called.
-/

namespace Weaver

namespace Engine

open Machine

variable {settings : Settings} {engine : Engine} {records : List Rewrite}

/-- The calls of a routine link to its body. -/
structure Links (engine : Engine) (proxies : List GeneratedProxy) (routine : Routine)
    (target : Body) : Prop where
  generated : (routine.generate engine.events).1 = .ok target
  /-- The body has the owner, the name and the signature by which it is called. -/
  ref_eq : target.ref = routine.ref
  home : ∃ proxy ∈ proxies, proxy.name = routine.ref.owner ∧ target ∈ proxy.methods
  alone : ∀ method ∈ proxies.flatMap GeneratedProxy.methods,
    MethodKey.ofRef method.ref = MethodKey.ofRef routine.ref → method = target
  /-- A native method of the same key would win over the body. -/
  resolves : ∀ program : Program, program.natives.lookup (.ofRef routine.ref) = none →
    (program.addProxies proxies).resolve? routine.ref = some (.body target)

theorem Accounts.makes (accounts : Accounts settings engine records) :
    engine.proxies.Makes engine.events engine.proxies.live := by
  apply Arena.makes_of_narrow
  intro id lives
  obtain ⟨record, _, inlays, held, inlay, inlayIn, rfl⟩ := accounts.exists_inlay lives
  rw [held.routine_eq inlay inlayIn]
  exact held.narrow inlay inlayIn

/-- A routine that lives links to its body. -/
theorem Accounts.links (accounts : Accounts settings engine records)
    (noDot : '.' ∉ settings.proxyClass.toList) {id : RoutineId}
    (lives : id ∈ engine.proxies.live) :
    engine.Links (engine.proxies.proxiesOf engine.events) (engine.proxies.get id)
      (engine.proxies.bodyOf engine.events id) := by
  have sound := accounts.coherent.sound
  have makes := accounts.makes
  have distinct := sound.nodup_keys makes
  have refEq := makes.ref_eq lives
  have member : engine.proxies.bodyOf engine.events id ∈
      (engine.proxies.proxiesOf engine.events).flatMap GeneratedProxy.methods := by
    rw [Arena.methods_proxiesOf]
    exact List.mem_map_of_mem lives
  obtain ⟨proxy, proxyIn, nameEq, methodIn⟩ := sound.exists_proxy lives
  have ownerEq := sound.owner_ref (accounts.className_eq ▸ noDot) lives
  exact
    { generated := makes id lives
      ref_eq := refEq
      home := ⟨proxy, proxyIn, nameEq.trans ownerEq.symm, methodIn⟩
      alone := fun method methodIn sameKey =>
        List.inj_on_of_nodup_map distinct methodIn member (sameKey.trans (by rw [refEq]))
      resolves := fun program interpreted =>
        Program.resolve?_addProxies distinct member refEq interpreted }

/-- Every dispatch call links.  Whatever a host had transformed, one body at a time or many, with
success or without, the types with the bodies of all routines can be generated.  Each body that was
rewritten has the instructions that it had and the runs at its sites, and the one static call of each
run links to the one body that was generated for the routine of that site, in the type that has the
name of its owner; and every method that was generated is called by a body that was rewritten. -/
theorem dispatch_links (noDot : '.' ∉ settings.proxyClass.toList)
    (course : Course settings engine records) :
    ∃ proxies, engine.generateProxies.1 = .ok proxies ∧
      (proxies.map GeneratedProxy.name).Nodup ∧
      ((proxies.flatMap GeneratedProxy.methods).map fun method =>
        MethodKey.ofRef method.ref).Nodup ∧
      (∀ record ∈ records, ∃ inlays, engine.Holds record inlays ∧
        (∀ ref, .call .static ref ∈ record.woven.code.instrs ↔
          .call .static ref ∈ record.source.code.instrs ∨
            ∃ inlay ∈ inlays, ref = inlay.routine.ref) ∧
        ∀ inlay ∈ inlays, ∃ target, engine.Links proxies inlay.routine target) ∧
      ∀ proxy ∈ proxies, ∀ method ∈ proxy.methods, ∃ record ∈ records,
        .call .static method.ref ∈ record.woven.code.instrs := by
  have accounts := course.accounts
  have sound := accounts.coherent.sound
  have makes := accounts.makes
  have distinct := sound.nodup_keys makes
  refine ⟨engine.proxies.proxiesOf engine.events, Arena.generate_eq makes, sound.nodup_proxies,
    distinct, ?_, ?_⟩
  · intro record member
    obtain ⟨inlays, held⟩ := accounts.holds record member
    refine ⟨inlays, held, ?_, ?_⟩
    · intro ref
      simp only [held.atOnce.mem_iff, Inlay.call_static_mem_run_iff]
    · intro inlay inlayIn
      have links := accounts.links noDot (accounts.lives member held inlayIn)
      rw [held.routine_eq inlay inlayIn] at links
      exact ⟨_, links⟩
  · intro proxy proxyIn method methodIn
    obtain ⟨id, lives, rfl, _⟩ := sound.exists_routine proxyIn methodIn
    obtain ⟨record, member, inlays, held, inlay, inlayIn, rfl⟩ := accounts.exists_inlay lives
    refine ⟨record, member, held.atOnce.mem_iff.mpr (.inr ⟨inlay, inlayIn, ?_⟩)⟩
    rw [Inlay.call_static_mem_run_iff, makes.ref_eq lives, held.routine_eq inlay inlayIn]

theorem course_twoInjections : Course .standard (hostOf twoEvents twoInjections) [] := by
  obtain ⟨first, second, third, fourth⟩ := steps_twoInjections
  exact .prepare (.prepare (.prepare (.prepare .fresh (.define first)) (.define second))
    (.register third)) (.register fourth)

/-- The calls of the rewritten countdown, which had none, lead to generated bodies. -/
theorem dispatch_links_twoInjections :
    let outcome := (hostOf twoEvents twoInjections).transform .countdown
    '.' ∉ Settings.standard.proxyClass.toList ∧
      Course .standard outcome.2.1
        [⟨.countdown, ⟨Body.countdown.text, true, 2, [⟨1⟩, ⟨2⟩]⟩, outcome.2.2⟩] ∧
      ∃ proxies, outcome.2.1.generateProxies.1 = .ok proxies ∧
        ∀ ref, .call .static ref ∈ outcome.2.2.code.instrs →
          ∃ target, (Program.empty.addProxies proxies).resolve? ref = some (.body target) := by
  have noDot : '.' ∉ Settings.standard.proxyClass.toList := by decide
  have noCall : ∀ instr ∈ Body.countdown.code.instrs, instr.mnemonic ≠ "invokestatic" := by
    decide +kernel
  have rewritten := transform_twoInjections.1
  rcases done : (hostOf twoEvents twoInjections).transform .countdown with ⟨result, next, woven⟩
  rw [done] at rewritten
  dsimp only at rewritten ⊢
  have course := course_twoInjections.transform (rewritten ▸ done)
  obtain ⟨proxies, generated, _, _, each, _⟩ := dispatch_links noDot course
  refine ⟨noDot, course, proxies, generated, ?_⟩
  intro ref called
  obtain ⟨inlays, _, calls, links⟩ := each _ List.mem_cons_self
  rcases (calls ref).mp called with before | ⟨inlay, inlayIn, rfl⟩
  · exact absurd rfl (noCall _ before)
  · obtain ⟨target, linked⟩ := links inlay inlayIn
    exact ⟨target, linked.resolves .empty rfl⟩

end Engine

end Weaver
