import Asn1.Main
import Asn1.Proofs.Ber.Loop
import Asn1.Proofs.Ber.Session
import Asn1.Proofs.Ber.Sums
import Asn1.Proofs.Integer.Shortest
import Asn1.Proofs.ObjectIdentifier.RoundTrip
import Asn1.Proofs.Octets.Hex.Dump
import Asn1.Proofs.SignatureAlgorithm
import Asn1.Proofs.TimeStamp.Conversion
import Asn1.Proofs.TimeStamp.Distinguished
import Asn1.Proofs.TimeStamp.Extent
import Asn1.Proofs.TimeStamp.FailureInfo.Bits
import Asn1.Proofs.TimeStamp.Grammar
import Asn1.Proofs.TimeStamp.Summary.Text
import Asn1.Proofs.Value.Json
import Asn1.Proofs.Value.Listing
import Asn1.Proofs.Value.Walk
