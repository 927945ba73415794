import RegMap.FileSystem
import RegMap.Main
import RegMap.Proofs.Drivers
import RegMap.Proofs.Engine
import RegMap.Proofs.NextFit
import RegMap.Proofs.PortNames
import RegMap.Proofs.Rejection
import RegMap.Proofs.SelfCheck
import RegMap.Proofs.Addressing
import RegMap.Proofs.Instantiation
import RegMap.Proofs.Places
import RegMap.Proofs.FileEffects
import RegMap.Proofs.Generation
import RegMap.Proofs.Interruption
import RegMap.Proofs.Identifiers
import RegMap.Proofs.Descriptors
import RegMap.Proofs.Confinement
import RegMap.Proofs.Properties
import RegMap.Proofs.Quieting
import RegMap.Proofs.Declarations
import RegMap.Proofs.Loading
import RegMap.Proofs.Runs
import RegMap.Proofs.Cuts
import RegMap.Proofs.Kinds
import RegMap.Proofs.Minimality
import RegMap.Proofs.Shrinking
import RegMap.Proofs.Headings
import RegMap.Proofs.Charges
import RegMap.Proofs.Density
import RegMap.Proofs.Shapes
import RegMap.Proofs.Growth
import RegMap.Proofs.AccessCodes
import RegMap.Proofs.Overlaps
import RegMap.Proofs.Violations
import RegMap.Proofs.SourceLines
import RegMap.Proofs.Legibility
import RegMap.Proofs.ReadBack
import RegMap.Proofs.Listings
import RegMap.Proofs.Agreement
import RegMap.Proofs.Reports
